import EndpointAtlas.Program
import EndpointAtlas.Proofs.Leniency
import EndpointAtlas.Proofs.Ranking
import EndpointAtlas.Proofs.Rescan
import EndpointAtlas.Proofs.Usage
import EndpointAtlas.Proofs.Writing

/-!
# What a run delivers

A run with a root analyses the sources below it as they are before anything is written, attempts both
reports, and prints the summary. Neither a source that cannot be read nor a report that cannot be written
keeps it from going on.
-/

namespace EndpointAtlas

namespace Program

open FileTree Report

/-- The inventory of the project at a root, with the settings of a run. -/
def analysed (s : Surroundings) (a : Arguments) (root : String) (t : FileTree) : Inventory :=
  let settings := Settings.ofArguments a s
  (Project.analyze t (currentPlace s) root settings.extensions settings.lenient).1.inventory

theorem analysed_eq (s : Surroundings) (a : Arguments) (root : String) (t : FileTree) :
    analysed s a root t = (Analysis.ofUnits (Project.units (Project.sources t (currentPlace s) root
      (Settings.ofArguments a s).extensions (Settings.ofArguments a s).lenient))).inventory := rfl

/-- What the attempt to write the inventory comes to. -/
def inventoryAttempt (s : Surroundings) (a : Arguments) (root : String) (t : FileTree) :
    FileTree × Option ReportFailure :=
  Report.write t (currentPlace s) (Settings.ofArguments a s).inventoryPath (analysed s a root t).toJson

/-- What the attempt to write the usage comes to. It follows the other one. -/
def usageAttempt (s : Surroundings) (a : Arguments) (root : String) (t : FileTree) :
    FileTree × Option ReportFailure :=
  Report.write (inventoryAttempt s a root t).1 (currentPlace s) (Settings.ofArguments a s).usagePath
    (Usage.ofInventory (analysed s a root t)).toJson

variable {s : Surroundings} {a : Arguments} {root : String} {t : FileTree} {words : List String}
  {i : Inventory}

theorem inventoryAttempt_of_analysed (h : analysed s a root t = i) : inventoryAttempt s a root t =
    Report.write t (currentPlace s) (Settings.ofArguments a s).inventoryPath i.toJson := by
  rw [inventoryAttempt, h]

theorem usageAttempt_of_analysed (h : analysed s a root t = i) : usageAttempt s a root t =
    Report.write
      (Report.write t (currentPlace s) (Settings.ofArguments a s).inventoryPath i.toJson).1
      (currentPlace s) (Settings.ofArguments a s).usagePath (Usage.ofInventory i).toJson := by
  rw [usageAttempt, inventoryAttempt, h]

theorem run_of_parse (hparse : CommandLine.parse words = .ok a) :
    run s words t = .ok (carryOut s a t) := by
  unfold run
  rw [hparse]
  rfl

theorem carryOut_without_root (hroot : a.root = none) :
    carryOut s a t = ⟨1, "", ["Path not specified"], t⟩ := by
  unfold carryOut
  rw [hroot]

theorem exitCode_carryOut (hroot : a.root = some root) : (carryOut s a t).exitCode = 0 := by
  unfold carryOut
  rw [hroot]

theorem output_carryOut (hroot : a.root = some root) : (carryOut s a t).output =
    (if (inventoryAttempt s a root t).2.isNone then "JSON file generated successfully\n" else "") ++
      (Usage.ofInventory (analysed s a root t)).summary (Settings.ofArguments a s).top := by
  unfold carryOut
  rw [hroot]
  rfl

theorem files_carryOut (hroot : a.root = some root) :
    (carryOut s a t).files = (usageAttempt s a root t).1 := by
  unfold carryOut
  rw [hroot]
  rfl

theorem exitCode_carryOut_ne_zero_iff : (carryOut s a t).exitCode ≠ 0 ↔ a.root = none := by
  cases hroot : a.root with
  | none =>
      rw [carryOut_without_root hroot]
      simp
  | some root =>
      rw [exitCode_carryOut hroot]
      simp

/-! ### A tree with one source -/

theorem units_of_scan {path : String} {bytes : List UInt8} {current : Place}
    {extensions : List String} (lenient : Bool) (hscan : t.scan current root extensions = [path])
    (hread : t.read current path = .ok bytes) :
    Project.units (Project.sources t current root extensions lenient) =
      (SourceUnit.ofBytes lenient bytes).toOption.toList := by
  unfold Project.units Project.sources SourceUnit.ofFile
  rw [hscan, List.map_singleton, hread]
  dsimp only
  cases SourceUnit.ofBytes lenient bytes <;> rfl

theorem analysed_source {text : List Char} {u : SourceUnit}
    (hplace : t.place (currentPlace s) root = .ok ["src"])
    (hfiles : t.filesBelow ["src"] = [["A.java"]])
    (hread : t.read (currentPlace s) (Path.join root "A.java") = .ok (Text.Utf8.encode text))
    (htext : Text.Utf8.decodeLossy (Text.Utf8.encode text) = text)
    (hunit : SourceUnit.ofText false text = .ok u)
    (hextensions : (Settings.ofArguments a s).extensions = ["java"])
    (hlenient : (Settings.ofArguments a s).lenient = false) :
    analysed s a root t = (Analysis.ofUnits [u]).inventory := by
  have hscan : t.scan (currentPlace s) root ["java"] = [Path.join root "A.java"] := by
    have hsource : ["A.java"] ∈ t.filesBelow ["src"] := by
      rw [hfiles]
      exact List.mem_singleton_self _
    obtain ⟨hne, content, hentry⟩ := mem_filesBelow_iff.1 hsource
    rw [scan_of_place hplace (isDirectory_of_get?_append hentry hne), hfiles, selectSources,
      List.mergeSort_of_pairwise (by decide)]
    rfl
  rw [analysed_eq, hextensions, hlenient, units_of_scan false hscan hread, SourceUnit.ofBytes, htext,
    hunit]
  rfl

theorem analysed_endpoints (hplace : t.place (currentPlace s) root = .ok ["src"])
    (hfiles : t.filesBelow ["src"] = [["A.java"]])
    (hread : t.read (currentPlace s) (Path.join root "A.java") = .ok (Text.Utf8.encode
      "@Path class A{@GetMapping B f(C c);@PutMapping C g();}".toList))
    (hextensions : (Settings.ofArguments a s).extensions = ["java"])
    (hlenient : (Settings.ofArguments a s).lenient = false) :
    analysed s a root t = .ofList [("A", .ofList [("f", ["B", "C"]), ("g", ["C"])])] := by
  rw [analysed_source hplace hfiles hread (by decide) SourceUnit.ofText_endpoints hextensions hlenient]
  decide

theorem summary_endpoints :
    (Usage.ofInventory (.ofList [("A", .ofList [("f", ["B", "C"]), ("g", ["C"])])])).summary 10 =
      "Number of unique DTOs: 2\n\n== Most used DTO: [C] (Used 2 times) ==\n\n" ++
        "== Frequently used DTOs ==\n\nC : 2\nB : 1\n" := by
  have hperm : (Usage.ofInventory
      (.ofList [("A", .ofList [("f", ["B", "C"]), ("g", ["C"])])])).toList.Perm
        [("C", 2), ("B", 1)] := by decide
  rw [Usage.summary, Usage.summaryLines_of_ranked hperm (by decide)]
  decide

/-! ### What a run comes to -/

/-- A run fails only for want of a root, and then does nothing. With a root it attempts both reports,
whatever becomes of the first, and says whether that was written before it sums up. -/
theorem run_goes_on (hparse : CommandLine.parse words = .ok a) :
    ∃ o, run s words t = .ok o ∧ (o.exitCode ≠ 0 ↔ a.root = none) ∧
      (a.root = none → o.output = "" ∧ o.files = t) ∧
      ∀ root, a.root = some root →
        let settings := Settings.ofArguments a s
        let current := currentPlace s
        let inventory := analysed s a root t
        let usage := Usage.ofInventory inventory
        let between := (Report.write t current settings.inventoryPath inventory.toJson).1
        ∃ first second,
          Attempt t current settings.inventoryPath inventory.toJson between first ∧
          o.output = (if first then "JSON file generated successfully\n" else "") ++
            usage.summary settings.top ∧
          Attempt between current settings.usagePath usage.toJson o.files second ∧
          (between.Writable current settings.usagePath →
            o.files.find current settings.usagePath = .ok (.file (bytes usage.toJson))) := by
  refine ⟨carryOut s a t, run_of_parse hparse, exitCode_carryOut_ne_zero_iff, ?_, ?_⟩
  · intro hroot
    rw [carryOut_without_root hroot]
    exact ⟨rfl, rfl⟩
  · intro root hroot settings current inventory usage between
    have hsecond : Attempt between current settings.usagePath usage.toJson (carryOut s a t).files
        (usageAttempt s a root t).2.isNone := by
      rw [files_carryOut hroot]
      exact attempt_write between current settings.usagePath usage.toJson
    refine ⟨(inventoryAttempt s a root t).2.isNone, _,
      attempt_write t current settings.inventoryPath inventory.toJson, output_carryOut hroot,
      hsecond, ?_⟩
    intro hwritable
    rw [hsecond.writable_iff.1 hwritable] at hsecond
    obtain ⟨p, hplace, hfile⟩ := hsecond.leads
    exact find_of_leads hplace hfile

/-- A directory stands where the inventory would go, and the usage goes to a directory that is missing. -/
theorem run_goes_on_past_directory :
    let words := ["src", "--output-dir=out", "--inventory-file=taken", "--frequency-file=new/usage"]
    let a : Arguments :=
      { root := some "src", outputDirectory := some "out", inventoryFile := "taken",
        usageFile := "new/usage", top := 10 }
    let t := FileTree.empty
      |>.plant ["src", "A.java"]
        (.file (Text.Utf8.encode "@Path class A{@GetMapping B f(C c);@PutMapping C g();}".toList))
      |>.plant ["out", "taken"] .directory
    CommandLine.parse words = .ok a ∧
      ∃ o, run ⟨"/", none⟩ words t = .ok o ∧ o.exitCode = 0 ∧
        o.output = "Number of unique DTOs: 2\n\n== Most used DTO: [C] (Used 2 times) ==\n\n" ++
          "== Frequently used DTOs ==\n\nC : 2\nB : 1\n" ∧
        o.files.find [] "out/new/usage" =
          .ok (.file (bytes "\x7b\n  \"B\": 1,\n  \"C\": 2\n\x7d".toList)) := by
  intro words a t
  have hparse : CommandLine.parse words = .ok a := by decide
  have hanalysed : analysed ⟨"/", none⟩ a "src" t =
      .ofList [("A", .ofList [("f", ["B", "C"]), ("g", ["C"])])] :=
    analysed_endpoints (by decide +kernel) (by decide +kernel) (by decide +kernel) (by decide) rfl
  have hrefused : (inventoryAttempt ⟨"/", none⟩ a "src" t).2.isNone = false := by
    rw [inventoryAttempt_of_analysed hanalysed]
    decide +kernel
  have hwritten : (usageAttempt ⟨"/", none⟩ a "src" t).2.isNone := by
    rw [usageAttempt_of_analysed hanalysed]
    decide +kernel
  have hcurrent : currentPlace ⟨"/", none⟩ = [] := by decide
  have hpath : (Settings.ofArguments a ⟨"/", none⟩).usagePath = "out/new/usage" := by decide
  have htop : (Settings.ofArguments a ⟨"/", none⟩).top = 10 := rfl
  obtain ⟨o, hrun, hcode, -, hrest⟩ := run_goes_on (s := ⟨"/", none⟩) (t := t) hparse
  obtain ⟨first, second, hfirst, houtput, -, hfind⟩ := hrest "src" rfl
  refine ⟨hparse, o, hrun, ?_, ?_, ?_⟩
  · by_contra hne
    cases hcode.1 hne
  · have hfirst : first = false := by
      rw [← hrefused, Bool.eq_iff_iff, ← hfirst.writable_iff]
      exact (attempt_write _ _ _ _).writable_iff
    rw [houtput, hfirst, hanalysed, htop, summary_endpoints]
    exact String.empty_append
  · have hfile := hfind ((attempt_write _ _ _ _).writable_iff.2 hwritten)
    rw [hcurrent, hpath, hanalysed] at hfile
    rw [hfile]
    decide

/-! ### Both reports -/

theorem lt_of_get?_ofInventory {type : String} {n : Nat}
    (hcount : (analysed s a root t).endpointCount < UInt64.size)
    (hget : (Usage.ofInventory (analysed s a root t)).get? type = some n) : n < UInt64.size :=
  Nat.lt_of_le_of_lt (Analysis.usage_le_endpointCount hget) hcount

/-- The reports of a run and what it prints say the same. A count is a 64-bit number, so there may not be
more endpoints than such a number can tell. -/
theorem reports_agree (hparse : CommandLine.parse words = .ok a) (hroot : a.root = some root)
    (hfirst : (inventoryAttempt s a root t).2 = none) (hsecond : (usageAttempt s a root t).2 = none)
    (hcount : (analysed s a root t).endpointCount < UInt64.size) :
    let settings := Settings.ofArguments a s
    let current := currentPlace s
    ∃ o, run s words t = .ok o ∧
      (o.files.place current settings.inventoryPath ≠ o.files.place current settings.usagePath →
        ∃ inventory usage,
          Report.read Inventory.ofJson? o.files current settings.inventoryPath = .ok inventory ∧
          inventory = analysed s a root t ∧
          Report.read Usage.ofJson? o.files current settings.usagePath = .ok usage ∧
          usage = Usage.ofInventory inventory ∧
          o.output = "JSON file generated successfully\n" ++ usage.summary settings.top) := by
  intro settings current
  refine ⟨carryOut s a t, run_of_parse hparse, ?_⟩
  have hinventory := attempt_write t current settings.inventoryPath (analysed s a root t).toJson
  have husage := attempt_write (inventoryAttempt s a root t).1 current settings.usagePath
    (Usage.ofInventory (analysed s a root t)).toJson
  rw [show (Report.write t _ _ _).2 = none from hfirst, Option.isNone_none] at hinventory
  rw [show (Report.write (inventoryAttempt s a root t).1 _ _ _).2 = none from hsecond,
    Option.isNone_none] at husage
  rw [files_carryOut hroot, output_carryOut hroot, hfirst]
  intro hdiffer
  -- The second report is written beside the first, so the first is still what its path leads to.
  obtain ⟨p, hplace, hfile⟩ := hinventory.leads
  have hplace' := place_grown husage.grown hplace
  have hfile' := (husage.get?_of_file hfile).resolve_right fun hsame =>
    hdiffer (hplace'.trans hsame.2.symm)
  obtain ⟨q, hplaceUsage, hfileUsage⟩ := husage.leads
  refine ⟨analysed s a root t, Usage.ofInventory (analysed s a root t), ?_, rfl, ?_, rfl, rfl⟩
  · exact read_of_find (find_of_leads hplace' hfile') (Inventory.ofJson?_toJson _)
  · apply read_of_find (find_of_leads hplaceUsage hfileUsage)
    exact Usage.ofJson?_toJson fun type n hget => lt_of_get?_ofInventory hcount hget

/-- The inventory goes through a link to where a file was. -/
theorem reports_agree_through_link :
    let words := ["src", "--output-dir=out", "--inventory-file=link"]
    let t := FileTree.empty
      |>.plant ["src", "A.java"]
        (.file (Text.Utf8.encode "@Path class A{@GetMapping B f(C c);@PutMapping C g();}".toList))
      |>.plant ["out", "old"] (.file [])
      |>.plant ["out", "link"] (.link "old")
    let inventory : Inventory := .ofList [("A", .ofList [("f", ["B", "C"]), ("g", ["C"])])]
    ∃ o, run ⟨"/", none⟩ words t = .ok o ∧
      Report.read Inventory.ofJson? o.files [] "out/link" = .ok inventory ∧
      Report.read Usage.ofJson? o.files [] "out/dto_frequency.json" = .ok (.ofInventory inventory) ∧
      o.output = "JSON file generated successfully\n" ++
        ("Number of unique DTOs: 2\n\n== Most used DTO: [C] (Used 2 times) ==\n\n" ++
          "== Frequently used DTOs ==\n\nC : 2\nB : 1\n") := by
  intro words t inventory
  let a : Arguments :=
    { root := some "src", outputDirectory := some "out", inventoryFile := "link",
      usageFile := Settings.defaultUsageFile, top := 10 }
  have hparse : CommandLine.parse words = .ok a := by decide
  have hanalysed : analysed ⟨"/", none⟩ a "src" t = inventory :=
    analysed_endpoints (by decide +kernel) (by decide +kernel) (by decide +kernel) (by decide) rfl
  have hfirst : (inventoryAttempt ⟨"/", none⟩ a "src" t).2 = none := by
    rw [inventoryAttempt_of_analysed hanalysed]
    decide +kernel
  have hsecond : (usageAttempt ⟨"/", none⟩ a "src" t).2 = none := by
    rw [usageAttempt_of_analysed hanalysed]
    decide +kernel
  have hcount : (analysed ⟨"/", none⟩ a "src" t).endpointCount < UInt64.size := by
    rw [hanalysed]
    decide
  have hcurrent : currentPlace ⟨"/", none⟩ = [] := by decide
  have hinventory : (Settings.ofArguments a ⟨"/", none⟩).inventoryPath = "out/link" := by decide
  have husage : (Settings.ofArguments a ⟨"/", none⟩).usagePath = "out/dto_frequency.json" := by decide
  have htop : (Settings.ofArguments a ⟨"/", none⟩).top = 10 := rfl
  have hdiffer : (usageAttempt ⟨"/", none⟩ a "src" t).1.place [] "out/link" ≠
      (usageAttempt ⟨"/", none⟩ a "src" t).1.place [] "out/dto_frequency.json" := by
    rw [usageAttempt_of_analysed hanalysed]
    decide +kernel
  obtain ⟨o, hrun, hagree⟩ := reports_agree hparse rfl hfirst hsecond hcount
  have ho : o.files = (usageAttempt ⟨"/", none⟩ a "src" t).1 := by
    rw [Except.ok.inj (hrun.symm.trans (run_of_parse hparse)), files_carryOut rfl]
  rw [hcurrent, hinventory, husage, ho] at hagree
  obtain ⟨found, usage, hread, hsame, hreadUsage, hcounts, houtput⟩ := hagree hdiffer
  rw [hanalysed] at hsame
  subst hsame hcounts
  rw [← ho] at hread hreadUsage
  exact ⟨o, hrun, hread, hreadUsage, by rw [houtput, htop, summary_endpoints]⟩

end Program

end EndpointAtlas
