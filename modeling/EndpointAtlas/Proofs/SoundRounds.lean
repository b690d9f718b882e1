import EndpointAtlas.Proofs.SoundRepairs

/-!
# The tree of a text follows the grammar

Each round takes a lexeme into every reading, puts the readings in order and repairs a stuck one. All
of it keeps the parser sound, so the tree of any text is made of sound trees and has all of the text in
it.
-/

namespace EndpointAtlas.Syntax

open Grammar Tree

namespace Parser

variable {text rest cs : List Char} {p : Parser} {lexeme : Lexeme} {v : Nat}

/-! ### Taking a lexeme -/

/-- The reading that is moved on to after completing productions is where the first one was. -/
theorem isAt_replace_of_reduces {q : Parser} {last : Option Nat} {w : Nat}
    (h : Reduces text v p q last) (hw : w ∈ last) (hv : (p.reading v).IsAt text rest) :
    ((q.replace v w).reading v).IsAt text rest := by
  have hbeyond {i : Nat} (hi : p.size ≤ i) : (q.reading i).IsAt text rest := by
    refine h.kept rest hv i ?_
    rw [reading_of_size_le hi]
    exact Reading.isAt_default
  have hnew := h.last w hw
  exact isAt_replace (hbeyond hnew) (h.kept rest hv v hv) fun hle => hbeyond (by omega)

theorem isSound_takeLexeme (hp : p.IsSound text) (hl : lexeme.Begins rest cs)
    (hv : (p.reading v).IsAt text cs) (fuel : Nat) :
    (takeLexeme fuel p v lexeme rest).IsSound text := by
  induction fuel generalizing p lexeme with
  | zero => exact isSound_set hp (Reading.isSound_halted (isSound_reading hp v)) v
  | succ fuel ih =>
      have hr := isSound_reading hp v
      have hstate := Reading.lawful_state hr
      have hpaused := Reading.isSound_pause hr hl hv
      rw [takeLexeme.eq_def]
      dsimp only
      cases hkind : lexeme.kind with
      | none =>
          dsimp only
          split
          · exact isSound_recover hp hl hv
          · exact isSound_set hp hpaused v
      | some t =>
          have hreduced := reduces_foldl hp v
            (fun q hq => ItemSet.isRule_of_mem_reductions (t := t) hstate hq)
            (fun new last => new.orElse fun _ => last) fun new last => by cases new <;> simp
          dsimp only at hreduced ⊢
          have hkept := hreduced.kept cs hv v hv
          split
          · next hcomment =>
            refine isSound_set hp (Reading.isSound_shift hr hl hv hkind (fun _ => ?_) hstate) v
            simpa [isComment, hkind] using hcomment
          split
          · next hlast =>
            rw [Bool.and_eq_true, decide_eq_true_eq] at hlast
            exact isSound_accept hp hl hv (hkind.trans (congrArg some hlast.1))
          split
          · have hnext := ItemSet.lawful_advance hstate (.terminal t)
            have hown : false = true → t = .lineComment ∨ t = .blockComment :=
              fun h => absurd h Bool.false_ne_true
            exact isSound_set hreduced.sound (Reading.isSound_shift hr hl hv hkind hown hnext) v
          split
          · next w hw =>
            exact ih (isSound_replace hreduced.sound v w) hl (isAt_replace_of_reduces hreduced hw hv)
          split
          · exact isSound_set hreduced.sound (Reading.isSound_halted hr) v
          split
          · next hword =>
            -- A keyword that cannot stand here is read as the name that it could be.
            simp only [Bool.and_eq_true, Option.isSome_iff_exists] at hword
            obtain ⟨⟨-, keyword, hkeyword⟩, -⟩ := hword
            refine ih hreduced.sound ⟨⟨fun u hu => ?_, hl.spelled.gap⟩, hl.source, fun h => ?_⟩ hkept
            · cases hu
              exact (Lexeme.spells_of_keyword? hkeyword).2
            · cases h
          split
          · exact isSound_recover hreduced.sound hl hkept
          · exact isSound_set hreduced.sound hpaused v

theorem isSound_step (hp : p.IsSound text) (hactive : (p.reading v).status = .active) :
    (step p v).IsSound text :=
  isSound_takeLexeme hp (Reading.begins_lexeme _) ((isSound_reading hp v).isAt hactive) _

theorem isSound_catchUp (hp : p.IsSound text) (fuel v front : Nat) :
    (catchUp fuel p v front).1.IsSound text := by
  induction fuel generalizing p with
  | zero => exact isSound_set hp (Reading.isSound_halted (isSound_reading hp v)) v
  | succ fuel ih =>
      rw [catchUp]
      split
      · next hactive =>
        have hstep := isSound_step hp (Reading.status_of_isActive hactive)
        dsimp only
        split
        · exact hstep
        · exact ih hstep
      · exact hp

theorem isSound_sweep (hp : p.IsSound text) (fuel v front length : Nat) :
    (sweep fuel p v front length).1.IsSound text := by
  induction fuel generalizing p v front with
  | zero => exact hp
  | succ fuel ih =>
      rw [sweep]
      dsimp only
      split
      · exact ih (isSound_catchUp hp _ v front) _ _
      · exact hp

/-! ### Putting the readings in order -/

theorem isSound_settlePair (hp : p.IsSound text) (mine : Standing) (fuel i j : Nat) :
    (settlePair fuel p mine i j).IsSound text := by
  induction fuel generalizing p i j with
  | zero => exact hp
  | succ fuel ih =>
      rw [settlePair]
      split
      · exact hp
      split
      · exact isSound_remove hp i
      · split
        · next q hq => exact isSound_merge? hp hq
        · exact ih hp i (j + 1)
      · split
        · next q hq => exact isSound_merge? hp hq
        · exact ih hp i (j + 1)
      · split
        · next q hq => exact isSound_merge? hp hq
        · have hswapped := isSound_set (isSound_set hp (isSound_reading hp i) j)
            (isSound_reading hp j) i
          exact ih hswapped i (j + 1)
      · exact ih (isSound_remove hp j) (i - 1) j

theorem isSound_settleFrom (hp : p.IsSound text) (fuel i : Nat) (least : Option Nat) :
    (settleFrom fuel p i least).1.IsSound text := by
  induction fuel generalizing p i least with
  | zero => exact hp
  | succ fuel ih =>
      rw [settleFrom]
      split
      · exact hp
      split
      · exact ih (isSound_remove hp i) i least
      · have hsettled := isSound_set hp
          (Reading.isSound_settle (isSound_reading hp i)) i
        exact ih (isSound_settlePair hsettled _ 64 i 0) _ _

theorem isSound_wake (hp : p.IsSound text) (fuel i : Nat) (going : Bool) (least : Option Nat) :
    (wake fuel p i going least).1.IsSound text := by
  induction fuel generalizing p i going least with
  | zero => exact hp
  | succ fuel ih =>
      rw [wake]
      dsimp only
      split
      · next lexeme rest hpaused =>
        have hr := isSound_reading hp i
        obtain ⟨cs, hl, hcs⟩ := hr.paused lexeme rest hpaused
        have hlt : i < p.size := by
          by_contra hle
          rw [reading_of_size_le (Nat.le_of_not_lt hle)] at hpaused
          cases hpaused
        split
        · have hactive : Reading.IsSound text { p.reading i with status := .active } :=
            ⟨hr.divisions, hr.read, fun _ _ h => (nomatch h), hr.landmarks⟩
          have hset : (p.set i { p.reading i with status := .active }).reading i =
              { p.reading i with status := .active } := by
            rw [reading, set, List.getD_eq_getElem?_getD, List.getElem?_set_self hlt, Option.getD_some]
          refine ih (isSound_repair (isSound_set hp hactive i) hl ?_) _ _ _
          rw [hset]
          exact ⟨rfl, hcs⟩
        · exact ih (isSound_remove hp i) i going least
      · exact ih hp (i + 1) true least

theorem isSound_condense (hp : p.IsSound text) : (condense p).1.IsSound text := by
  have hsettled := isSound_settleFrom hp (4 * (p.size + 4)) 0 none
  have hkept : Parser.IsSound text { (settleFrom (4 * (p.size + 4)) p 0 none).1 with
      readings := (settleFrom (4 * (p.size + 4)) p 0 none).1.readings.take maxReadings } :=
    ⟨fun r hr => hsettled.readings r (List.mem_of_mem_take hr), hsettled.finished⟩
  exact isSound_wake hkept _ 0 false _

theorem isSound_run (hp : p.IsSound text) (fuel front length : Nat) :
    (run fuel p front length).IsSound text := by
  induction fuel generalizing p front with
  | zero => exact hp
  | succ fuel ih =>
      have hround := isSound_condense (isSound_sweep hp 256 0 front length)
      have hnext (beaten : Bool) (reached : Nat) :
          (if beaten then (sweep 256 p 0 front length).1.condense.1
            else run fuel (sweep 256 p 0 front length).1.condense.1 reached length).IsSound text := by
        split
        · exact hround
        · exact ih hround reached
      rw [run]
      split
      · exact hp
      · exact hnext _ _

end Parser

/-- The tree of every text is made of sound trees, and its text is that text. -/
theorem sound_parse (text : List Char) : (parse text).IsWhole ∧ (parse text).source = text := by
  have hstart : Parser.IsSound text { readings := [{ divisions := [Stack.bottom], rest := text }] } := by
    refine ⟨List.forall_mem_singleton.2 ⟨?_, ?_, ?_, ?_⟩, fun t ht => nomatch ht⟩
    · exact List.forall_mem_singleton.2 Stack.isSound_bottom
    · exact List.forall_mem_singleton.2 rfl
    · exact fun _ _ h => nomatch h
    · exact List.forall_mem_nil _
  have hrun := Parser.isSound_run hstart (16 * (text.length + 16)) 0 text.length
  unfold parse
  dsimp only
  generalize Parser.run (16 * (text.length + 16))
    { readings := [{ divisions := [Stack.bottom], rest := text }] } 0 text.length = p at hrun
  cases hfinished : p.finished with
  | some t => exact hrun.finished t hfinished
  | none =>
      refine ⟨isWhole_skip _, ?_⟩
      rw [source_skip, sourceOf_cons, sourceOf_nil, List.append_nil, source_stray, List.nil_append]

theorem isWhole_parse (text : List Char) : (parse text).IsWhole := (sound_parse text).1

/-- The tree of a text keeps every character of it. -/
theorem source_parse (text : List Char) : (parse text).source = text := (sound_parse text).2

end EndpointAtlas.Syntax
