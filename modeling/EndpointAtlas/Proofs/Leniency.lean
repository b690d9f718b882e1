import EndpointAtlas.Proofs.Scan
import EndpointAtlas.Proofs.Statistics

/-!
# Lenient reading

A lenient reader keeps what the repaired tree declares, so it refuses no text. What a strict reader
accepts needs no repair, and both declare the same of it.
-/

namespace EndpointAtlas

instance decidableEqExcept {ε α : Type} [DecidableEq ε] [DecidableEq α] : DecidableEq (Except ε α)
  | .error e, .error f => decidable_of_iff (e = f) ⟨congrArg _, Except.error.inj⟩
  | .error _, .ok _ => isFalse fun h => nomatch h
  | .ok _, .error _ => isFalse fun h => nomatch h
  | .ok a, .ok b => decidable_of_iff (a = b) ⟨congrArg _, Except.ok.inj⟩

namespace SourceUnit

variable {text : List Char} {bytes : List UInt8} {u : SourceUnit}

/-- A lenient reader takes every text. -/
theorem ofText_true (text : List Char) :
    ofText true text = .ok (ofNode (.ofRoot (Syntax.parse text))) := by
  rw [ofText, ofRoot, Bool.not_true, Bool.and_false]
  rfl

theorem ofText_lenient (h : ofText false text = .ok u) : ofText true text = .ok u := by
  rw [ofText, ofRoot] at h
  split at h
  · cases h
  · rw [ofText_true]
    exact h

section File

variable {t : FileTree} {current : Place} {path : String} {lenient : Bool}

/-- A file gives the declarations of the text in it. -/
theorem ofFile_eq_ok_iff : ofFile t current lenient path = .ok u ↔
    ∃ bytes, t.read current path = .ok bytes ∧ ofBytes lenient bytes = .ok u := by
  -- Any reader will do. Of the reader itself the kernel would take the parser apart.
  obtain ⟨reader, hreader⟩ : ∃ reader, reader = ofBytes lenient := ⟨_, rfl⟩
  unfold ofFile
  rw [← hreader]
  cases t.read current path with
  | error fault => simp
  | ok bytes =>
      dsimp only
      cases hresult : reader bytes <;> simp [hresult]

theorem ofFile_of_error {e : SyntaxError} (hread : t.read current path = .ok bytes)
    (hbytes : ofBytes lenient bytes = .error e) :
    ofFile t current lenient path = .error (.malformed e) := by
  obtain ⟨reader, hreader⟩ : ∃ reader, reader = ofBytes lenient := ⟨_, rfl⟩
  unfold ofFile
  rw [← hreader] at hbytes ⊢
  rw [hread]
  dsimp only
  rw [hbytes]

theorem ofFile_lenient (h : ofFile t current false path = .ok u) :
    ofFile t current true path = .ok u := by
  obtain ⟨bytes, hread, hbytes⟩ := ofFile_eq_ok_iff.1 h
  exact ofFile_eq_ok_iff.2 ⟨bytes, hread, ofText_lenient hbytes⟩

end File

set_option maxRecDepth 100000 in
theorem ofText_controller : ofText false "@Path class A{}".toList =
    .ok ⟨none, [⟨"A", .classType, [⟨"Path"⟩], [], []⟩]⟩ := by
  decide +kernel

set_option maxRecDepth 100000 in
theorem ofText_endpoints :
    ofText false "@Path class A{@GetMapping B f(C c);@PutMapping C g();}".toList =
      .ok ⟨none, [⟨"A", .classType, [⟨"Path"⟩], [⟨"f", "B", [⟨"c", "C"⟩], [⟨"GetMapping"⟩]⟩,
        ⟨"g", "C", [], [⟨"PutMapping"⟩]⟩], []⟩]⟩ := by
  decide +kernel

end SourceUnit

namespace Project

variable {t : FileTree} {current : Place} {root : String} {extensions : List String}

theorem analyze_congr {lenient lenient' : Bool}
    (h : sources t current root extensions lenient = sources t current root extensions lenient') :
    analyze t current root extensions lenient = analyze t current root extensions lenient' := by
  rw [analyze, analyze, h]

theorem countP_sources (t : FileTree) (current : Place) (root : String) (extensions : List String)
    (lenient : Bool) :
    (sources t current root extensions lenient).countP (·.2.toOption.isNone) =
      (t.scan current root extensions).countP fun path =>
        (SourceUnit.ofFile t current lenient path).toOption.isNone := by
  rw [sources, List.countP_map]
  rfl

/-- A file that fails when it is read leniently fails as well when it is read strictly. -/
theorem filesFailed_lenient_le (t : FileTree) (current : Place) (root : String)
    (extensions : List String) :
    (analyze t current root extensions true).1.statistics.filesFailed ≤
      (analyze t current root extensions false).1.statistics.filesFailed := by
  rw [filesFailed_analyze, filesFailed_analyze, countP_sources, countP_sources]
  apply List.countP_mono_left
  intro path _ hlenient
  cases hstrict : SourceUnit.ofFile t current false path with
  | error failure => rfl
  | ok u =>
      rw [SourceUnit.ofFile_lenient hstrict] at hlenient
      cases hlenient

/-- Where every file is accepted strictly, reading leniently makes no difference. -/
theorem sources_lenient
    (hfailed : (analyze t current root extensions false).1.statistics.filesFailed = 0) :
    sources t current root extensions true = sources t current root extensions false := by
  rw [filesFailed_analyze, countP_sources, List.countP_eq_zero] at hfailed
  rw [sources, sources]
  apply List.map_congr_left
  intro path hpath
  have haccepted := hfailed path hpath
  cases hstrict : SourceUnit.ofFile t current false path with
  | error failure =>
      rw [hstrict] at haccepted
      exact absurd rfl haccepted
  | ok u => rw [SourceUnit.ofFile_lenient hstrict]

end Project

/-- A lenient reader refuses no text and agrees with a strict one on every text that this accepts. So in a
project no more files fail, and if none fails strictly all there is to say of it is the same. -/
theorem lenient_extends_strict :
    (∀ text, ∃ u, SourceUnit.ofText true text = .ok u ∧
      ∀ v, SourceUnit.ofText false text = .ok v → v = u) ∧
    ∀ (t : FileTree) (current : Place) (root : String) (extensions : List String),
      let lenient := Project.analyze t current root extensions true
      let strict := Project.analyze t current root extensions false
      lenient.1.statistics.filesFailed ≤ strict.1.statistics.filesFailed ∧
        (strict.1.statistics.filesFailed = 0 →
          lenient.1.inventory = strict.1.inventory ∧
            lenient.1.statistics = strict.1.statistics ∧ lenient.2 = strict.2) := by
  constructor
  · intro text
    refine ⟨_, SourceUnit.ofText_true text, ?_⟩
    intro v hstrict
    exact Except.ok.inj ((SourceUnit.ofText_lenient hstrict).symm.trans (SourceUnit.ofText_true text))
  · intro t current root extensions lenient strict
    refine ⟨Project.filesFailed_lenient_le t current root extensions, ?_⟩
    intro hfailed
    have hsame : lenient = strict := Project.analyze_congr (Project.sources_lenient hfailed)
    rw [hsame]
    exact ⟨rfl, rfl, rfl⟩

/-- A project of one file that is accepted strictly. -/
theorem lenient_extends_strict_one_file :
    let text := "@Path class A{}".toList
    let u : SourceUnit := ⟨none, [⟨"A", .classType, [⟨"Path"⟩], [], []⟩]⟩
    let t := FileTree.empty.plant ["src", "A.java"] (.file (Text.Utf8.encode text))
    SourceUnit.ofText false text = .ok u ∧ SourceUnit.ofText true text = .ok u ∧
      (Project.analyze t [] "src" ["java"] false).1.statistics.filesFailed = 0 ∧
      (Project.analyze t [] "src" ["java"] false).1.inventory = .ofList [("A", .empty)] ∧
      (Project.analyze t [] "src" ["java"] true).1.inventory = .ofList [("A", .empty)] := by
  intro text u t
  have hstrict : SourceUnit.ofText false text = .ok u := SourceUnit.ofText_controller
  have hscan : t.scan [] "src" ["java"] = ["src/A.java"] := by
    rw [FileTree.scan_of_place (by decide : t.place [] "src" = .ok ["src"]) (by decide),
      FileTree.selectSources, List.mergeSort_of_pairwise (by decide)]
    decide
  have hsources : Project.sources t [] "src" ["java"] false = [("src/A.java", .ok u)] := by
    have hread : t.read [] "src/A.java" = .ok (Text.Utf8.encode text) := by decide
    have htext : Text.Utf8.decodeLossy (Text.Utf8.encode text) = text := by decide
    have hbytes : SourceUnit.ofBytes false (Text.Utf8.encode text) = .ok u := by
      rw [SourceUnit.ofBytes, htext, hstrict]
    rw [Project.sources, hscan, List.map_singleton,
      SourceUnit.ofFile_eq_ok_iff.2 ⟨_, hread, hbytes⟩]
  have hfailed : (Project.analyze t [] "src" ["java"] false).1.statistics.filesFailed = 0 := by
    rw [Project.filesFailed_analyze, hsources]
    rfl
  have hinventory : (Project.analyze t [] "src" ["java"] false).1.inventory =
      .ofList [("A", .empty)] := by
    rw [Project.analyze, hsources]
    decide
  obtain ⟨v, hlenient, hsame⟩ := lenient_extends_strict.1 text
  rw [← hsame u hstrict] at hlenient
  obtain ⟨hinventory', -, -⟩ := (lenient_extends_strict.2 t [] "src" ["java"]).2 hfailed
  exact ⟨hstrict, hlenient, hfailed, hinventory, hinventory'.trans hinventory⟩

end EndpointAtlas
