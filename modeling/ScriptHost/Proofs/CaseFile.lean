import ScriptHost.Case.Run
import ScriptHost.Proofs.CaseFormat
import ScriptHost.Proofs.Marshal

/-! # Writing a case among its sources

A file that is written to a folder is read back from there, and the other files are read as before. If it is no script,
the sources of the folder are the same as without it. -/

namespace ScriptHost.Case

def Folder.write (f : Folder) (path : String) (content : ByteArray) : Folder :=
  { f with files := (path, content) :: f.files.filter (·.1 ≠ path) }

namespace Folder

variable (f : Folder) {path : String} (content : ByteArray)

theorem read_write (path : String) : (f.write path content).read path = .ok content := by
  simp only [read, write, List.find?_cons, beq_self_eq_true]

theorem read_write_of_ne {p : String} (hne : p ≠ path) (hfile : p ∈ f.files.map Prod.fst) :
    (f.write path content).read p = f.read p := by
  obtain ⟨file, hmem, hp⟩ := List.mem_map.mp hfile
  have hfind : (f.write path content).files.find? (·.1 == p) = f.files.find? (·.1 == p) := by
    have hother (file : String × ByteArray) : (decide (file.1 ≠ path) && file.1 == p) = (file.1 == p) := by
      by_cases hfile : file.1 = p
      · simp [hfile, hne]
      · simp [hfile]
    rw [write, List.find?_cons, beq_false_of_ne hne.symm]
    simp only [List.find?_filter, Bool.decide_and, Bool.decide_eq_true, hother]
  have hsome : (f.files.find? (·.1 == p)).isSome := List.find?_isSome.mpr ⟨file, hmem, beq_iff_eq.mpr hp⟩
  obtain ⟨found, hfound⟩ := Option.isSome_iff_exists.mp hsome
  rw [read, read, hfind, hfound]

theorem readText_write (path : String) (s : String) : (f.write path s.toUTF8).readText path = .ok s := by
  have hdecode : Text.Utf8.decode? s.toUTF8 = some s := (Text.Utf8.decode?_eq_some_iff _ s).mpr rfl
  simp only [readText, read_write, bind, Except.bind, hdecode]

theorem readText_write_of_ne {p : String} (hne : p ≠ path) (hfile : p ∈ f.files.map Prod.fst) :
    (f.write path content).readText p = f.readText p := by
  rw [readText, readText, f.read_write_of_ne content hne hfile]

end Folder

section

variable (folder : Folder) {path : String} (content : ByteArray)

theorem gather_write (hpath : Folder.extension? path ≠ some "lua") {files : List (String × ByteArray)}
    (hfiles : files ⊆ folder.files) (sources : Sources) :
    gather (folder.write path content) (files.filter (·.1 ≠ path)) sources = gather folder files sources := by
  induction files generalizing sources with
  | nil => rfl
  | cons file files ih =>
    obtain ⟨p, script⟩ := file
    obtain ⟨hfile, hrest⟩ := List.cons_subset.mp hfiles
    by_cases hp : p = path
    · subst hp
      rw [List.filter_cons_of_neg (by simp), ih hrest, gather, if_pos hpath]
    · have hread := folder.readText_write_of_ne content hp (List.mem_map.mpr ⟨_, hfile, rfl⟩)
      rw [List.filter_cons_of_pos (by simpa using hp), gather, gather, hread, ih hrest]
      split
      · rfl
      · split
        · rfl
        · rw [ih hrest]

theorem readSources_write (hpath : Folder.extension? path ≠ some "lua") :
    readSources (folder.write path content) = readSources folder := by
  have hgather : gather (folder.write path content) (folder.write path content).files [] =
      gather folder folder.files [] := by
    rw [Folder.write, gather, if_pos hpath]
    exact gather_write folder content hpath (List.Subset.refl _) []
  rw [readSources, readSources, hgather]

theorem run_write (hpath : Folder.extension? path ≠ some "lua") (case : TestCase) (platform : Lua.Platform) :
    run (folder.write path content) case platform = run folder case platform := by
  rw [run, run, readSources_write folder content hpath]

end

theorem readCase_write (folder : Folder) (path : String) {t : TestCase} (hschema : t.schema = schemaVersion)
    (hcount : t.executions < 2 ^ 64) (hargs : ∀ c ∈ t.expectedCalls, ∀ a ∈ c.args, a.ReadsBack) :
    readCase (folder.write path t.toJson.compact.toUTF8) path = .ok t := by
  have htext : TestCase.ofText t.toJson.compact = .ok t := by
    rw [TestCase.ofText, Json.decodeText_compact _ (TestCase.faithful hargs)]
    exact TestCase.decode_tree hcount hargs (by decide)
  simp only [readCase, Folder.readText_write, htext, bind, Except.bind, hschema, beq_self_eq_true, if_true]

end ScriptHost.Case
