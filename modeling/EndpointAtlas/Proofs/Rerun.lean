import EndpointAtlas.Proofs.Delivery
import EndpointAtlas.Proofs.Leniency
import EndpointAtlas.Proofs.Rescan

/-!
# A run that is repeated

The reports of a run lie in the tree that the next run starts from. They are no sources, so the next run
finds the same sources and writes the same reports to the same places. Only the way to the root may have
changed: the directories that were made for the reports can lie on it.
-/

namespace EndpointAtlas

namespace Program

open FileTree Report

variable {s : Surroundings} {a : Arguments} {root : String} {t u : FileTree} {words : List String}

/-! ### What the reports leave as it was -/

theorem grown_usageAttempt (s : Surroundings) (a : Arguments) (root : String) (t : FileTree) :
    Grown t (usageAttempt s a root t).1 := by
  have hinventory : Grown t (inventoryAttempt s a root t).1 := (attempt_write _ _ _ _).grown
  exact hinventory.trans (attempt_write _ _ _ _).grown

section Again

variable (hinventory : t.Direct (currentPlace s) (Settings.ofArguments a s).inventoryPath)
  (husage : t.Direct (currentPlace s) (Settings.ofArguments a s).usagePath)

include hinventory husage

theorem spares_usageAttempt (root : String)
    (hinventoryName : ¬ Path.hasExtension (Settings.ofArguments a s).inventoryPath
      (Settings.ofArguments a s).extensions)
    (husageName : ¬ Path.hasExtension (Settings.ofArguments a s).usagePath
      (Settings.ofArguments a s).extensions) :
    Spares (Settings.ofArguments a s).extensions t (usageAttempt s a root t).1 := by
  have hfirst : Spares (Settings.ofArguments a s).extensions t (inventoryAttempt s a root t).1 :=
    .of_attempt (attempt_write _ _ _ _) hinventory hinventoryName
  exact hfirst.trans (.of_attempt (attempt_write _ _ _ _) (husage.grown hfirst.grown) husageName)

/-- Reports of the same inventory come to what they came to before. -/
theorem attempts_again (hcurrent : t.isDirectory (currentPlace s))
    (hu : u = (usageAttempt s a root t).1) (hsame : analysed s a root u = analysed s a root t) :
    (inventoryAttempt s a root u).2.isNone = (inventoryAttempt s a root t).2.isNone ∧
      (usageAttempt s a root u).1 = u := by
  obtain ⟨hagain, hfiles⟩ := writes_again hcurrent hinventory husage (analysed s a root t).toJson
    (Usage.ofInventory (analysed s a root t)).toJson
  rw [inventoryAttempt_of_analysed hsame, usageAttempt_of_analysed hsame]
  subst hu
  exact ⟨hagain, hfiles⟩

end Again

theorem analysed_again (hnamed : t.Named)
    (hspares : Spares (Settings.ofArguments a s).extensions t u)
    (hkept : ∀ top, u.place (currentPlace s) root = .ok top → t.isDirectory top →
      t.place (currentPlace s) root = .ok top) :
    analysed s a root u = analysed s a root t := by
  rw [analysed_eq, analysed_eq, sources_of_spares hnamed hspares hkept]

/-! ### The runs -/

/-- A run that is repeated on the tree it has left gives the same exit code and the same output, and leaves
that tree as it is: provided the root does not come to lead to a directory that was there before. -/
theorem run_again {o : Outcome} (hnamed : t.Named) (hcurrent : t.isDirectory (currentPlace s))
    (hparse : CommandLine.parse words = .ok a) (hroot : a.root = some root)
    (hinventory : t.Direct (currentPlace s) (Settings.ofArguments a s).inventoryPath)
    (husage : t.Direct (currentPlace s) (Settings.ofArguments a s).usagePath)
    (hinventoryName : ¬ Path.hasExtension (Settings.ofArguments a s).inventoryPath
      (Settings.ofArguments a s).extensions)
    (husageName : ¬ Path.hasExtension (Settings.ofArguments a s).usagePath
      (Settings.ofArguments a s).extensions)
    (hrun : run s words t = .ok o)
    (hkept : ∀ top, o.files.place (currentPlace s) root = .ok top → t.isDirectory top →
      t.place (currentPlace s) root = .ok top) :
    ∃ o', run s words o.files = .ok o' ∧ o'.exitCode = o.exitCode ∧ o'.output = o.output ∧
      o'.files = o.files := by
  cases Except.ok.inj (hrun.symm.trans (run_of_parse hparse))
  have hfiles := files_carryOut (s := s) (t := t) hroot
  have hspares := spares_usageAttempt hinventory husage root hinventoryName husageName
  rw [← hfiles] at hspares
  have hsame := analysed_again hnamed hspares hkept
  obtain ⟨hwritten, hleft⟩ := attempts_again hinventory husage hcurrent hfiles hsame
  refine ⟨carryOut s a (carryOut s a t).files, run_of_parse hparse, ?_, ?_, ?_⟩
  · rw [exitCode_carryOut hroot, exitCode_carryOut hroot]
  · rw [output_carryOut hroot, output_carryOut hroot, hwritten, hsame]
  · rw [files_carryOut hroot, hleft]

/-- The reports of a controller go below the root. -/
theorem run_again_below_root :
    let words := ["src", "--output-dir=src/reports"]
    let t := FileTree.empty.plant ["src", "A.java"]
      (.file (Text.Utf8.encode "@Path class A{@GetMapping B f(C c);@PutMapping C g();}".toList))
    let inventory : Inventory := .ofList [("A", .ofList [("f", ["B", "C"]), ("g", ["C"])])]
    ∃ o o', run ⟨"/", none⟩ words t = .ok o ∧ run ⟨"/", none⟩ words o.files = .ok o' ∧
      o'.output = o.output ∧ o'.files = o.files ∧
      Report.read Inventory.ofJson? o'.files [] "src/reports/controller_dto_mapping.json" =
        .ok inventory := by
  intro words t inventory
  let a : Arguments :=
    { root := some "src", outputDirectory := some "src/reports",
      inventoryFile := Settings.defaultInventoryFile, usageFile := Settings.defaultUsageFile, top := 10 }
  have hparse : CommandLine.parse words = .ok a := by decide
  have hroot : a.root = some "src" := rfl
  have hplace : t.place (currentPlace ⟨"/", none⟩) "src" = .ok ["src"] := by decide
  have hkept : ∀ top, (carryOut ⟨"/", none⟩ a t).files.place (currentPlace ⟨"/", none⟩) "src" = .ok top →
      t.isDirectory top → t.place (currentPlace ⟨"/", none⟩) "src" = .ok top := by
    intro top htop _
    rw [files_carryOut hroot, place_grown (grown_usageAttempt _ _ _ _) hplace] at htop
    rw [hplace, htop]
  obtain ⟨o', hrun', -, houtput, hfiles⟩ := run_again (by decide) (by decide) hparse rfl (by decide)
    (by decide) (by decide) (by decide) (run_of_parse hparse) hkept
  refine ⟨_, o', run_of_parse hparse, hrun', houtput, hfiles, ?_⟩
  have hanalysed : analysed ⟨"/", none⟩ a "src" t = inventory :=
    analysed_endpoints hplace (by decide +kernel) (by decide +kernel) (by decide) rfl
  have hfind : (usageAttempt ⟨"/", none⟩ a "src" t).1.find []
      "src/reports/controller_dto_mapping.json" = .ok (.file (bytes inventory.toJson)) := by
    rw [usageAttempt_of_analysed hanalysed]
    decide +kernel
  rw [hfiles, files_carryOut hroot]
  exact read_of_find hfind (Inventory.ofJson?_toJson inventory)

/-- Where the directory for the reports lies on the way to the root, the next run finds sources that this
one did not find. -/
theorem run_again_finds_more :
    let words := ["new/../src", "--output-dir=new"]
    let t := FileTree.empty.plant ["src", "A.java"]
      (.file (Text.Utf8.encode "@Path class A{}".toList))
    ∃ a o o', t.Named ∧ CommandLine.parse words = .ok a ∧ a.root = some "new/../src" ∧
      t.Direct [] (Settings.ofArguments a ⟨"/", none⟩).inventoryPath ∧
      t.Direct [] (Settings.ofArguments a ⟨"/", none⟩).usagePath ∧
      ¬ Path.hasExtension (Settings.ofArguments a ⟨"/", none⟩).inventoryPath
        (Settings.ofArguments a ⟨"/", none⟩).extensions ∧
      ¬ Path.hasExtension (Settings.ofArguments a ⟨"/", none⟩).usagePath
        (Settings.ofArguments a ⟨"/", none⟩).extensions ∧
      run ⟨"/", none⟩ words t = .ok o ∧ run ⟨"/", none⟩ words o.files = .ok o' ∧
      o'.files ≠ o.files := by
  intro words t
  let a : Arguments :=
    { root := some "new/../src", outputDirectory := some "new",
      inventoryFile := Settings.defaultInventoryFile, usageFile := Settings.defaultUsageFile, top := 10 }
  have hparse : CommandLine.parse words = .ok a := by decide
  have hroot : a.root = some "new/../src" := rfl
  have hanalysed : analysed ⟨"/", none⟩ a "new/../src" (usageAttempt ⟨"/", none⟩ a "new/../src" t).1 =
      ⟨.ofList [("A", .empty)]⟩ :=
    analysed_source (by decide +kernel) (by decide +kernel) (by decide +kernel) (by decide)
      SourceUnit.ofText_controller (by decide) rfl
  refine ⟨a, carryOut ⟨"/", none⟩ a t, _, by decide, hparse, hroot, by decide, by decide, by decide,
    by decide, run_of_parse hparse, run_of_parse hparse, ?_⟩
  rw [files_carryOut hroot, files_carryOut hroot]
  generalize hu : (usageAttempt ⟨"/", none⟩ a "new/../src" t).1 = u at hanalysed ⊢
  rw [usageAttempt_of_analysed hanalysed]
  intro hsame
  have hfile := congrArg (FileTree.get? · ["new", "controller_dto_mapping.json"]) hsame
  subst hu
  exact absurd hfile (by decide +kernel)

end Program

end EndpointAtlas
