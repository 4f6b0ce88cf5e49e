import ProjectScript.Proofs.Registry.Document
import ProjectScript.Proofs.Registry.History

/-!
# Saving and loading

A registry that is saved is loaded again as it was, whatever the texts of its entries are
(`load_saved`). Saving needs a home that can be made (`Home.Creatable`): its directory is there or
is made, and no directory stands in the place of the registry's file.
-/

namespace ProjectScript

namespace Home

variable {host : Host} {home : Home} {w : World}

/-- The home can be made: its directory is there or is made, and the way to the registry's file
ends where no directory stands. -/
def Creatable (host : Host) (home : Home) (w : World) : Prop :=
  ∃ w₁, (home.ensure host).outcome w = (.ok (), w₁) ∧
    ∃ l, w₁.files.locate host.here home.registryFile = .ok l ∧ w₁.files.at? l ≠ some .directory

/-- A home with a name can be made if its directory is there afterwards. -/
theorem creatable_iff (hd : home.dir ≠ "") : home.Creatable host w ↔
    ∃ w₁, (home.ensure host).outcome w = (.ok (), w₁) ∧
      w₁.files.isDirectory host.here home.dir = true ∧
      w₁.files.isDirectory host.here home.registryFile = false := by
  have hsteps : FileSystem.steps "registry.yml" = ["registry.yml".toList] := by decide +kernel
  refine exists_congr fun w₁ => and_congr_right fun _ => ⟨?_, ?_⟩
  · rintro ⟨l, hl, hnot⟩
    refine ⟨FileSystem.isDirectory_of_locate_join hd isAbsolute_registryFile steps_registryFile hl,
      Bool.eq_false_iff.2 fun hfile => hnot ?_⟩
    exact (FileSystem.isDirectory_iff_of_locate hl).1 hfile
  · rintro ⟨hdir, hnot⟩
    obtain ⟨l, hl⟩ := FileSystem.exists_locate_join hd hdir isAbsolute_registryFile hsteps
      (by decide) (by decide +kernel) (by decide +kernel)
    refine ⟨l, hl, fun hat => Bool.eq_false_iff.1 hnot ?_⟩
    exact (FileSystem.isDirectory_iff_of_locate hl).2 hat

end Home

namespace Registry

section Saving

variable {host : Host} {home : Home} {w : World}

theorem outcome_load_of_parse {s : String} {r : Registry}
    (h : home.stored host.here w.files = some (.text s)) (hr : parse s = some r) :
    (load host home).outcome w = (.ok r, w) := by
  rw [outcome_load_text (FileSystem.read_of_content? h), hr]
  rfl

/-- A registry that is saved is loaded as it was: the same entries in the same order. Its text
stands in the file, and loading changes nothing. -/
theorem load_saved (h : home.Creatable host w) (r : Registry) :
    ∃ w', (save host home r).outcome w = (.ok (), w') ∧
      home.stored host.here w'.files = some (.text r.text) ∧
      (load host home).outcome w' = (.ok r, w') := by
  obtain ⟨w₁, hensure, l, hl, hnot⟩ := h
  obtain ⟨fs, hwrite⟩ := FileSystem.write_of_not_directory (s := r.text) hl hnot
  have hstored := FileSystem.content?_of_write hwrite
  refine ⟨{ w₁ with files := fs }, ?_, hstored, ?_⟩
  · rw [outcome_save hensure, hwrite]
  · exact outcome_load_of_parse hstored (parse_text r)

end Saving

namespace Sample

/-- Texts that stand for something else than themselves, or that need quotes, breaks or escapes. -/
def awkward : Registry :=
  ⟨[⟨"null", "~", "yes"⟩, ⟨"", "012", " a: b #c"⟩, ⟨"it's \"q\"", "- x", "\n  a\n\n"⟩,
    ⟨"\n \n", "a \nb", "\x00\t\u2028é"⟩, ⟨"null", "1e3", "x "⟩]⟩

theorem creatable : home.Creatable host start := by
  refine (Home.creatable_iff (by decide)).2 ⟨((home.ensure host).outcome start).2, ?_, ?_, ?_⟩
  · exact Prod.ext (eq_ok (by decide +kernel)) rfl
  · decide +kernel
  · decide +kernel

theorem load_saved_awkward :
    home.Creatable host start ∧
      ∃ w', (save host home awkward).outcome start = (.ok (), w') ∧
        home.stored host.here w'.files = some (.text awkward.text) ∧
        (load host home).outcome w' = (.ok awkward, w') :=
  ⟨creatable, load_saved creatable awkward⟩

end Sample

end Registry

end ProjectScript
