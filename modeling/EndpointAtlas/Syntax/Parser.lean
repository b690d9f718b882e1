import EndpointAtlas.Syntax.Reading

/-!
Reading a whole text. All readings that the grammar leaves open are followed side by side, and those
that fail are dropped as long as another goes on. When every reading is stuck, the best of them is
repaired at the least cost: by putting in one missing token, by going back to an earlier standpoint
that can take the lexeme at hand, or by skipping that lexeme.
-/

namespace EndpointAtlas.Syntax

open Grammar

/-- The readings under way, the most promising first, and the best complete tree so far. -/
structure Parser where
  readings : List Reading
  finished : Option Tree := none
  accepted : Nat := 0
  deriving Inhabited

namespace Parser

/-- The readings kept after each round. -/
def maxReadings : Nat := 6

/-- How many readings more there may be within a round. -/
def overflow : Nat := 4

/-- How far back a repair looks for a standpoint. -/
def maxDepth : Nat := 16

/-- A reading is dropped when another is better by more than this. -/
def maxCostGap : Nat := 18 * Cost.skippedTree

def reading (p : Parser) (v : Nat) : Reading := p.readings.getD v default

def set (p : Parser) (v : Nat) (r : Reading) : Parser := { p with readings := p.readings.set v r }

def remove (p : Parser) (v : Nat) : Parser := { p with readings := p.readings.eraseIdx v }

def append (p : Parser) (r : Reading) : Parser := { p with readings := p.readings ++ [r] }

def size (p : Parser) : Nat := p.readings.length

/-- Moves reading `w` to the place of reading `v`, before it in the list. -/
def replace (p : Parser) (v w : Nat) : Parser := (p.set v (p.reading w)).remove w

/-- Joins reading `w` to reading `v` if they stand at the same place. -/
def merge? (p : Parser) (v w : Nat) : Option Parser :=
  let a := p.reading v
  let b := p.reading w
  if a.mergeable b then some ((p.set v (a.merge b)).remove w) else none

/-! ### Comparing readings -/

/-- What the choice between two readings rests on. -/
structure Standing where
  cost : Nat
  progress : Nat
  bias : Int
  failing : Bool

inductive Preference where
  | take | prefer | none | preferOther | takeOther
  deriving DecidableEq

def standing (r : Reading) : Standing :=
  { cost := r.cost + if r.isPaused then Cost.skippedTree else 0
    progress := r.progress
    bias := r.bias
    failing := r.isPaused || r.isLost }

/-- Compares two readings: one that is failing gives way, then the cheaper one leads, by so much that
the other is dropped if the gap times its progress is large, then the one with more bias. -/
def compare (a b : Standing) : Preference :=
  if !a.failing && b.failing then if a.cost < b.cost then .take else .prefer
  else if a.failing && !b.failing then if b.cost < a.cost then .takeOther else .preferOther
  else if a.cost < b.cost then
    if maxCostGap < (b.cost - a.cost) * (1 + a.progress) then .take else .prefer
  else if b.cost < a.cost then
    if maxCostGap < (a.cost - b.cost) * (1 + b.progress) then .takeOther else .preferOther
  else if b.bias < a.bias then .prefer
  else if a.bias < b.bias then .preferOther
  else .none

/-- Whether a reading at the place of `v`, at the given cost, would be worse than what there is. -/
def betterExists (p : Parser) (v : Nat) (cost : Nat) : Bool :=
  let r := p.reading v
  let mine : Standing := ⟨cost, r.progress, r.bias, false⟩
  (match p.finished with
    | some t => t.summary.cost ≤ cost
    | none => false) ||
  p.readings.zipIdx.any fun (other, i) =>
    i != v && other.isActive && r.reach.bytes ≤ other.reach.bytes &&
      match compare mine (standing other) with
      | .takeOther => true
      | .preferOther => other.mergeable r
      | _ => false

/-! ### Completing productions -/

/-- Of two trees for the same text the cheaper one, then the one with more bias, then the first. -/
def better (a b : Tree) : Tree :=
  if b.summary.cost < a.summary.cost then b
  else if a.summary.cost < b.summary.cost then a
  else if a.summary.bias < b.summary.bias then b
  else a

/-- A production completed on one stack: its tree, the extras after it and the stack below. -/
structure Completion where
  tree : Tree
  extras : List (Label × Tree)
  below : Stack

/-- The stack with the tree and the extras of a completion put onto another one. -/
def Completion.onto (c : Completion) (below : Stack) (state : ItemSet) : Stack :=
  c.extras.foldl (fun s (label, t) => Stack.push s label t state) (Stack.push below {} c.tree state)

def complete (q : Production) (s : Stack) : Option Completion :=
  let (extras, s) := Stack.popExtras s []
  match Stack.pop q.steps.length s [] with
  | some (pieces, below) =>
    (labelled q.steps pieces).map fun children =>
      ⟨Tree.ofChildren q.head q.bias children, extras, below⟩
  | none => none

def samePlace (a b : Completion) : Bool :=
  let f := Stack.top a.below
  let g := Stack.top b.below
  f.reach.bytes == g.reach.bytes && f.cost == g.cost && f.state.same g.state

def group (cs : List Completion) : List (List Completion) :=
  cs.foldl (fun groups c => add c groups) []
where
  add (c : Completion) : List (List Completion) → List (List Completion)
    | [] => [[c]]
    | g :: gs =>
      match g with
      | d :: _ => if samePlace d c then (g ++ [c]) :: gs else g :: add c gs
      | [] => add c gs

/-- The reading after a completion, on every stack that it can be on. -/
def resume (r : Reading) (head : Construct) : List Completion → Option Reading
  | [] => none
  | c :: cs =>
    let best := cs.foldl (fun a b => if better a.tree b.tree == b.tree.summary then b else a) c
    let state := (Stack.top c.below).state.advance (.construct head)
    let divisions := (c :: cs).foldl (fun acc d => Reading.addStack acc (best.onto d.below state)) []
    some { r with divisions := divisions, status := .active, landmarks := [] }
where
  better (a b : Tree) : Summary := (Parser.better a b).summary

/-- Completes a production on reading `v`. Each place where it may have begun gives a new reading at
the end of the list, joined to an earlier one if they meet; also tells the first new one. -/
def reduce (p : Parser) (v : Nat) (q : Production) : Parser × Option Nat :=
  let r := p.reading v
  let halted := (p.readings.filter Reading.isHalted).length
  let before := p.size
  let p := (group (r.divisions.filterMap (complete q))).foldl (fun (p : Parser) cs =>
    match resume r q.head cs with
    | some new =>
      if maxReadings + overflow + halted < p.size then p
      else
        let p' := p.append new
        let w := p.size
        match (List.range w).findSome? fun j => if j = v then none else p'.merge? j w with
        | some joined => joined
        | none => p'
    | none => p) p
  (p, if before < p.size then some before else none)

/-- The terminals to reckon with: the one ahead, or any one. -/
def candidates (ahead : Option Terminal) : List Terminal :=
  match ahead with
  | some t => [t]
  | none => Terminal.all.drop 1

/-- The productions that some of the moves complete, each once. -/
def due (moves : List ItemSet.Moves) : List Production :=
  moves.foldl (fun acc m =>
    m.reductions.foldl (fun acc q =>
      if q.steps.isEmpty || q.head == .goal || acc.any (·.number == q.number) then acc
      else acc ++ [q]) acc) []

/-- Completes productions on reading `v` one by one; tells the first reading that the last one led to. -/
def reduceAll (p : Parser) (v : Nat) (qs : List Production) : Parser × Option Nat :=
  qs.foldl (fun (p, _) q => reduce p v q) (p, none)

/-- Completes every production that can be completed, whatever comes next, or before one terminal.
Readings that can do no more than that are replaced by what they lead to. Tells whether the terminal,
or any one, can then be taken. -/
def completeAll (fuel : Nat) (p : Parser) (start v base step : Nat) (ahead : Option Terminal)
    (canShift : Bool) : Parser × Bool :=
  match fuel with
  | 0 => (p, canShift)
  | fuel + 1 =>
    if p.size ≤ v then (p, canShift)
    else
      match ((List.range v).filter (base ≤ ·)).findSome? fun j => p.merge? j v with
      | some joined => completeAll fuel joined start v base (step + 1) ahead canShift
      | none =>
        let count := p.size
        let state := (p.reading v).state
        let moves := (candidates ahead).map state.moves
        let shifts := moves.any (·.shifts)
        let (p, last) := reduceAll p v (due moves)
        let forward := if v = start then count else v + 1
        if shifts then completeAll fuel p start forward base (step + 1) ahead true
        else
          match last with
          | some w =>
            if step < maxReadings then
              completeAll fuel (p.replace v w) start v base (step + 1) ahead canShift
            else if ahead.isSome then
              completeAll fuel (p.remove v) start (if v = start then count else v + 1) base
                (step + 1) ahead canShift
            else completeAll fuel p start forward base (step + 1) ahead canShift
          | none =>
            if ahead.isSome then
              completeAll fuel (p.remove v) start (if v = start then count else v + 1) base
                (step + 1) ahead canShift
            else completeAll fuel p start forward base (step + 1) ahead canShift

/-! ### Repairs -/

/-- The standpoints of a stack, from the top, by how many pieces back they are. -/
def landmarksOf (s : Stack) : List Landmark :=
  go 0 s
where
  go (depth : Nat) : Stack → List Landmark
    | [] => []
    | f :: s =>
      if maxDepth < depth then []
      else ⟨f.state, depth, f.reach⟩ :: go (if f.isExtra then depth else depth + 1) s

/-- The standpoints of a reading, the nearest first, each once at a depth. -/
def landmarks (r : Reading) : List Landmark :=
  let all := r.divisions.flatMap landmarksOf
  let byDepth := (List.range (maxDepth + 1)).flatMap fun d => all.filter (·.depth == d)
  byDepth.foldl (fun acc m =>
    if acc.any fun l => l.depth == m.depth && l.state.same m.state then acc else acc ++ [m]) []

/-- Pieces taken off a stack, with those of a skipped stretch right below them. -/
def joinSkipped (pieces : List (Label × Tree)) : Stack → List (Label × Tree) × Stack
  | f :: under =>
    match f.piece with
    | some (_, .skipped false _ children) => (children ++ pieces, under)
    | _ => (pieces, f :: under)
  | [] => (pieces, [])

/-- Puts pieces back onto a stack as one skipped stretch, and the extras at their end after it. -/
def skipPieces (pieces : List (Label × Tree)) (below : Stack) (goal : ItemSet) : Stack :=
  let (body, extras) := Stack.splitExtras pieces
  let s := match body with
    | [] => below
    | _ => Stack.push below { extra := true } (Tree.skip false body) goal
  extras.foldl (fun s (label, t) => Stack.push s label t goal) s

/-- Takes everything back to a landmark off a reading, as skipped. -/
def goBack (r : Reading) (depth : Nat) (goal : ItemSet) : List Reading :=
  let results := r.divisions.filterMap fun s =>
    match Stack.pop depth s [] with
    | some (pieces, below) =>
      if (Stack.top below).state.same goal then some (pieces, below) else none
    | none => none
  let distinct := results.foldl (fun (acc : List (List (Label × Tree) × Stack)) c =>
    if acc.any fun d =>
        (Stack.top d.2).reach.bytes == (Stack.top c.2).reach.bytes &&
          (Stack.top d.2).cost == (Stack.top c.2).cost
    then acc else acc ++ [c]) []
  distinct.map fun (pieces, below) =>
    let (pieces, below) := joinSkipped pieces below
    { r with
      divisions := [skipPieces pieces below goal]
      status := .active
      landmarks := [] }

/-- Ends a reading with the whole text: the tree over all its pieces, the completed program's own
children standing beside what surrounds it. -/
def accept (p : Parser) (v : Nat) (lexeme : Lexeme) : Parser :=
  let r := p.reading v
  let ending : Label × Tree := ({ extra := true }, .token .endOfInput lexeme.gap lexeme.text)
  let trees := r.divisions.map fun s => root (Stack.pieces s ++ [ending])
  let p := trees.foldl (fun (p : Parser) t =>
    { p with
      accepted := p.accepted + 1
      finished := match p.finished with
        | some old => some (better old t)
        | none => some t }) p
  p.set v { r with status := .halted }
where
  root (pieces : List (Label × Tree)) : Tree :=
    let (after, before) := (pieces.reverse.takeWhile fun q => q.1.extra,
      pieces.reverse.dropWhile fun q => q.1.extra)
    match before with
    | (_, .node kind _ children) :: earlier =>
      Tree.ofChildren kind 0 (earlier.reverse ++ children ++ after.reverse)
    | (_, .skipped _ _ children) :: earlier =>
      Tree.skip false (earlier.reverse ++ children ++ after.reverse)
    | other => Tree.skip false (other.reverse ++ after.reverse)

def isComment (l : Lexeme) : Bool :=
  l.kind == some .lineComment || l.kind == some .blockComment

def Lexeme.tree (l : Lexeme) : Tree :=
  match l.kind with
  | some t => .token t l.gap l.text
  | none => .stray l.gap l.text

/-- Takes a lexeme into a reading as skipped, together with what has been skipped before it if the reading
did not lose its place just now. -/
def skipLexeme (r : Reading) (lexeme : Lexeme) (rest : List Char) : Reading :=
  let skippedNow := Tree.skip true [({ extra := isComment lexeme }, Lexeme.tree lexeme)]
  let divisions := if r.progress == 0 then r.divisions.map fun s => (s, skippedNow)
    else
      ((r.divisions.filterMap fun s => Stack.pop 1 s []).take 1).map fun (pieces, below) =>
        (below, Tree.skip true (pieces ++ [({}, skippedNow)]))
  { r with
    divisions := divisions.map fun (s, t) => Stack.push s {} t .lost
    rest := rest }

/-- Goes on from a reading that has lost its place: back to an earlier standpoint that can take the
lexeme, and also over the lexeme, as skipped. -/
def recover (p : Parser) (v : Nat) (lexeme : Lexeme) (rest : List Char) : Parser :=
  let p := p.set v (p.reading v).settle
  let r := p.reading v
  let progress := r.progress
  let cost := r.cost
  let rec search : List Landmark → Parser × Bool
    | [] => (p, false)
    | m :: ms =>
      if m.state.isLost || m.reach.bytes == r.reach.bytes then search ms
      else
        let depth := if progress == 0 then m.depth else m.depth + 1
        let wouldMerge := p.readings.any fun other =>
          other.reach.bytes == r.reach.bytes && other.state.same m.state
        if wouldMerge then search ms
        else
          let newCost := cost + m.depth * Cost.skippedTree +
            (r.reach.bytes - m.reach.bytes) * Cost.skippedByte +
            (r.reach.lines - m.reach.lines) * Cost.skippedLine
          if p.betterExists v newCost then (p, false)
          else if (match lexeme.kind with
              | some t => m.state.acceptable.contains t
              | none => false) then
            match goBack r depth m.state with
            | [] => search ms
            | back => (back.foldl append p, true)
          else search ms
  let (p, recovered) := if lexeme.kind.isSome then search r.landmarks else (p, false)
  if lexeme.kind == some .endOfInput then
    let p := p.set v ((p.reading v).mapStacks fun s =>
      Stack.push s {} (Tree.skip false []) .start)
    p.accept v lexeme
  else if recovered && maxReadings < p.size then
    p.set v { r with status := .halted }
  else
    let size := Extent.ofChars lexeme.gap + Extent.ofChars lexeme.text
    let newCost := cost + Cost.skippedTree + size.bytes * Cost.skippedByte +
      size.lines * Cost.skippedLine
    if p.betterExists v newCost then p.set v { r with status := .halted }
    else p.set v (skipLexeme r lexeme rest)

/-- Puts one missing token into reading `v`, the first one after which the text can go on. -/
def putIn (p : Parser) (v : Nat) (ahead : Terminal) : Option Parser :=
  let r := p.reading v
  (Terminal.all.drop 1).findSome? fun t =>
    let state := r.state.advance (.terminal t)
    if state.isLost || state.same r.state || (state.moves ahead).reductions.isEmpty then none
    else
      let w := p.size
      let p' := p.append { (r.mapStacks fun s => Stack.push s {} (.missing t) state) with
        landmarks := [] }
      let before := if ahead = .endOfInput then none else some ahead
      let (p', canShift) := completeAll 200 p' w w (w + 1) 0 before false
      if canShift then some p' else none

/-- Puts a missing token into the first of some readings that can go on with one. -/
def putInOne (p : Parser) (targets : List Nat) (ahead : Option Terminal) : Parser :=
  let (p, _) := targets.foldl (fun (p, put) w =>
    match (if put then none else ahead.bind (putIn p w)) with
    | some p' => (p', true)
    | none => (p, put)) (p, false)
  p

/-- Lets some readings lose their place. -/
def loseAll (p : Parser) (targets : List Nat) : Parser :=
  targets.foldl (fun p w =>
    let r := (p.reading w).mapStacks Stack.lose
    p.set w { r with nodesAtRepair := r.nodes }) p

/-- Joins the readings from `first` on, `count` of them, to reading `v`, or drops them. -/
def gather (p : Parser) (v first count : Nat) : Parser :=
  (List.range count).foldl (fun p _ => (p.merge? v first).getD (p.remove first)) p

def repair (p : Parser) (v : Nat) (lexeme : Lexeme) (rest : List Char) : Parser :=
  let previous := p.size
  let (p, _) := completeAll 200 p v v previous 0 none false
  let count := p.size
  let targets := v :: (List.range count).filter (previous ≤ ·)
  let p := ((p.putInOne targets lexeme.kind).loseAll targets).gather v previous (count - previous)
  let r := p.reading v
  let p := p.set v { r with landmarks := landmarks r }
  recover p v lexeme rest

/-! ### The rounds -/

/-- Takes the next lexeme into reading `v`, completing what has to be completed before it. -/
def takeLexeme (fuel : Nat) (p : Parser) (v : Nat) (lexeme : Lexeme) (rest : List Char) : Parser :=
  match fuel with
  | 0 => p.set v { p.reading v with status := .halted }
  | fuel + 1 =>
    let r := p.reading v
    let state := r.state
    let moves : ItemSet.Moves := match lexeme.kind with
      | some t => state.moves t
      | none => ⟨[], false⟩
    match lexeme.kind with
    | none => if state.isLost then recover p v lexeme rest
      else p.set v (r.pause lexeme rest)
    | some t =>
      if isComment lexeme then p.set v (r.shift t lexeme true state rest)
      else if t = .endOfInput && moves.reductions.any (·.head == .goal) then p.accept v lexeme
      else
        let (p, last) := moves.reductions.foldl (fun (p, last) q =>
          let (p, new) := reduce p v q
          (p, new.orElse fun _ => last)) (p, none)
        if moves.shifts then
          p.set v (r.shift t lexeme false (state.advance (.terminal t)) rest)
        else
          match last with
          | some w => takeLexeme fuel (p.replace v w) v lexeme rest
          | none =>
            if !moves.reductions.isEmpty then p.set v { r with status := .halted }
            else if t != .identifier && (Lexeme.keyword? lexeme.text).isSome &&
                state.acceptable.contains .identifier then
              takeLexeme fuel p v { lexeme with kind := some .identifier } rest
            else if state.isLost then recover p v lexeme rest
            else p.set v (r.pause lexeme rest)

def step (p : Parser) (v : Nat) : Parser :=
  let r := p.reading v
  let (lexeme, rest) := r.lexeme
  takeLexeme (64 * ((r.divisions.headD []).length + 2)) p v lexeme rest

/-- Moves reading `v` on until it has reached `front` or stops. -/
def catchUp (fuel : Nat) (p : Parser) (v front : Nat) : Parser × Nat :=
  match fuel with
  | 0 => (p.set v { p.reading v with status := .halted }, front)
  | fuel + 1 =>
    if (p.reading v).isActive then
      let p := p.step v
      let reach := (p.reading v).reach.bytes
      if front < reach || (v != 0 && reach == front) then (p, reach) else catchUp fuel p v front
    else (p, front)

/-- Moves every reading on. Readings that come up meanwhile are moved on too. -/
def sweep (fuel : Nat) (p : Parser) (v front length : Nat) : Parser × Nat :=
  match fuel with
  | 0 => (p, front)
  | fuel + 1 =>
    if v < p.size then
      let (p, front) := catchUp (length + 16) p v front
      sweep fuel p (v + 1) front length
    else (p, front)

/-- Compares reading `i`, standing as `mine`, with the readings before it from `j` on: joins them where
they meet, drops the clearly worse one, and puts the better one first. -/
def settlePair (fuel : Nat) (p : Parser) (mine : Standing) (i j : Nat) : Parser :=
  match fuel with
  | 0 => p
  | fuel + 1 =>
    if i ≤ j then p
    else
      match compare (standing (p.reading j)) mine with
      | .take => p.remove i
      | .prefer | .none =>
        match p.merge? j i with
        | some p => p
        | none => settlePair fuel p mine i (j + 1)
      | .preferOther =>
        match p.merge? j i with
        | some p => p
        | none =>
          let a := p.reading j
          let b := p.reading i
          settlePair fuel ((p.set j b).set i a) mine i (j + 1)
      | .takeOther => settlePair fuel (p.remove j) mine (i - 1) j

/-- Puts the readings from `i` on in order; `least` is the least cost so far among those that are not
failing. -/
def settleFrom (fuel : Nat) (p : Parser) (i : Nat) (least : Option Nat) :
    Parser × Option Nat :=
  match fuel with
  | 0 => (p, least)
  | fuel + 1 =>
    if p.size ≤ i then (p, least)
    else if (p.reading i).isHalted then settleFrom fuel (p.remove i) i least
    else
      let p := p.set i (p.reading i).settle
      let mine := standing (p.reading i)
      let least := if mine.failing then least
        else match least with
          | some n => some (min n mine.cost)
          | none => some mine.cost
      let settled := settlePair 64 p mine i 0
      settleFrom fuel settled (i + 1 - (p.size - settled.size)) least

/-- Repairs the best stuck reading if no other goes on, and drops the other stuck ones. -/
def wake (fuel : Nat) (p : Parser) (i : Nat) (going : Bool) (least : Option Nat) :
    Parser × Option Nat :=
  match fuel with
  | 0 => (p, least)
  | fuel + 1 =>
    let r := p.reading i
    match r.status with
    | .paused lexeme rest =>
      if !going && p.accepted < maxReadings then
        let p' := repair (p.set i { r with status := .active }) i lexeme rest
        wake fuel p' (i + 1) true (some r.cost)
      else wake fuel (p.remove i) i going least
    | _ => wake fuel p (i + 1) true least

/-- Puts the readings in order and keeps the best; tells the least cost of those that go on. -/
def condense (p : Parser) : Parser × Option Nat :=
  let (p, least) := settleFrom (4 * (p.size + 4)) p 0 none
  let p := { p with readings := p.readings.take maxReadings }
  wake p.size p 0 false least

/-- Goes on round by round until no reading is left, or the finished tree costs less than any
reading. -/
def run (fuel : Nat) (p : Parser) (front length : Nat) : Parser :=
  match fuel with
  | 0 => p
  | fuel + 1 =>
    if p.readings.isEmpty then p
    else
      let (p, front) := sweep 256 p 0 front length
      let (p, least) := p.condense
      let beaten : Bool := match p.finished, least with
        | some t, some n => t.summary.cost < n
        | some _, none => true
        | none, _ => false
      if beaten then p else run fuel p front length

end Parser

/-- The syntax tree of a text. A text that the grammar does not derive has a tree with repairs. -/
def parse (text : List Char) : Tree :=
  let start : Parser := { readings := [{ divisions := [Stack.bottom], rest := text }] }
  match (Parser.run (16 * (text.length + 16)) start 0 text.length).finished with
  | some t => t
  | none => Tree.skip false [({}, .stray [] text)]

end EndpointAtlas.Syntax
