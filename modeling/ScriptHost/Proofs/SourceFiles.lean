import Mathlib.Data.List.Forall2
import Mathlib.Data.List.Nodup
import ScriptHost.Proofs.Marshal
import ScriptHost.Proofs.Sources

/-! # Which files become sources

Every file with the extension of scripts is a source, by the path that its own path becomes when backslashes are turned
into slashes. So two files are one source if their paths differ in nothing else; otherwise every script has an entry of
its own, in whatever order the files are met. -/

namespace ScriptHost.Case

/-- The path of a script: in any folder, a file with a name in front of its extension. -/
def IsScript (path : String) : Prop :=
  ∃ folder name : List Char, path.toList = folder ++ (name ++ ['.', 'l', 'u', 'a']) ∧ (∀ c ∈ folder.getLast?, c = '/') ∧
    name ≠ [] ∧ '/' ∉ name

theorem takeWhile_of_head {p : Char → Bool} {front rest : List Char} (hfront : ∀ c ∈ front, p c)
    (hrest : ∀ c ∈ rest.head?, ¬ p c) : (front ++ rest).takeWhile p = front := by
  rw [List.takeWhile_append_of_pos hfront]
  cases rest with
  | nil => rw [List.takeWhile_nil, List.append_nil]
  | cons c rest => rw [List.takeWhile_cons_of_neg (hrest c rfl), List.append_nil]

theorem not_of_head_dropWhile (p : Char → Bool) (cs : List Char) : ∀ c ∈ (cs.dropWhile p).head?, ¬ p c := by
  intro c hc
  have hnot := List.head?_dropWhile_not p cs
  rw [Option.mem_def.mp hc] at hnot
  exact Bool.eq_false_iff.mp hnot

theorem exists_folder (path : String) : ∃ folder, path.toList = folder ++ Folder.fileName path ∧
    (∀ c ∈ folder.getLast?, c = '/') ∧ '/' ∉ Folder.fileName path := by
  refine ⟨(path.toList.reverse.dropWhile (· ≠ '/')).reverse, ?_, ?_, ?_⟩
  · rw [Folder.fileName, ← List.reverse_append, List.takeWhile_append_dropWhile, List.reverse_reverse]
  · intro c hc
    rw [List.getLast?_reverse] at hc
    simpa using not_of_head_dropWhile (fun c => decide (c ≠ '/')) path.toList.reverse c hc
  · intro hmem
    have hall : (path.toList.reverse.takeWhile (· ≠ '/')).all (· ≠ '/') := List.all_takeWhile
    have hslash := List.all_eq_true.mp hall '/' (List.mem_reverse.mp hmem)
    exact absurd hslash (by decide)

theorem fileName_eq {path : String} {folder file : List Char} (hpath : path.toList = folder ++ file)
    (hfolder : ∀ c ∈ folder.getLast?, c = '/') (hfile : '/' ∉ file) : Folder.fileName path = file := by
  rw [Folder.fileName, hpath, List.reverse_append, takeWhile_of_head, List.reverse_reverse]
  · intro c hc
    rw [decide_eq_true_iff]
    rintro rfl
    exact hfile (List.mem_reverse.mp hc)
  · intro c hc
    rw [List.head?_reverse] at hc
    simp [hfolder c hc]

/-- Behind the extension stands a dot, and in front of that at least one character of the name. -/
theorem extension?_eq_some_iff_fileName (path : String) : Folder.extension? path = some "lua" ↔
    ∃ name, name ≠ [] ∧ Folder.fileName path = name ++ ['.', 'l', 'u', 'a'] := by
  unfold Folder.extension?
  generalize Folder.fileName path = file
  simp only
  constructor
  · intro h
    split at h
    · cases h
    next hlength =>
    have hending := List.reverse_eq_iff.mp (String.ofList_injective (Option.some.inj h))
    have hfile := List.takeWhile_append_dropWhile (p := fun c => decide (c ≠ '.')) (l := file.reverse)
    have hdot := not_of_head_dropWhile (fun c => decide (c ≠ '.')) file.reverse
    rw [← List.length_reverse, ← hfile, List.length_append, hending] at hlength
    rw [hending] at hfile
    generalize file.reverse.dropWhile (· ≠ '.') = ending at hfile hdot hlength
    obtain ⟨c, d, name, rfl⟩ : ∃ c d name, ending = c :: d :: name := by
      match ending with
      | c :: d :: name => exact ⟨c, d, name, rfl⟩
      | [] | [_] => exact absurd (by simp) hlength
    obtain rfl : c = '.' := by simpa using hdot c rfl
    refine ⟨(d :: name).reverse, List.reverse_ne_nil_iff.mpr (List.cons_ne_nil _ _), ?_⟩
    rw [← List.reverse_reverse file, ← hfile]
    simp
  · rintro ⟨name, hne, rfl⟩
    have hreverse : (name ++ ['.', 'l', 'u', 'a']).reverse = ['a', 'u', 'l'] ++ '.' :: name.reverse := by simp
    have hending : (name ++ ['.', 'l', 'u', 'a']).reverse.takeWhile (· ≠ '.') = ['a', 'u', 'l'] := by
      rw [hreverse]
      rfl
    have hlength := List.length_pos_iff.mpr hne
    rw [hending, if_neg (by simp; omega)]
    rfl

theorem extension?_eq_some_iff (path : String) : Folder.extension? path = some "lua" ↔ IsScript path := by
  rw [extension?_eq_some_iff_fileName]
  constructor
  · rintro ⟨name, hne, hname⟩
    obtain ⟨folder, hpath, hfolder, hslash⟩ := exists_folder path
    rw [hname] at hpath hslash
    exact ⟨folder, name, hpath, hfolder, hne, fun hmem => hslash (List.mem_append_left _ hmem)⟩
  · rintro ⟨folder, name, hpath, hfolder, hne, hname⟩
    exact ⟨name, hne, fileName_eq hpath hfolder (by simp [hname])⟩

instance : DecidablePred IsScript := fun path => decidable_of_iff _ (extension?_eq_some_iff path)

def Folder.scripts (folder : Folder) : List (String × ByteArray) := folder.files.filter fun file => IsScript file.1

theorem Folder.mem_scripts {folder : Folder} {file : String × ByteArray} :
    file ∈ folder.scripts ↔ file ∈ folder.files ∧ IsScript file.1 := by
  rw [scripts, List.mem_filter, decide_eq_true_iff]

theorem isScript_mainScript : IsScript mainScript :=
  ⟨[], ['m', 'a', 'i', 'n'], rfl, nofun, by decide, by decide⟩

/-- No backslash turns into the slash that a path without slashes would need. -/
theorem slashed_eq_mainScript {path : String} (h : slashed path = mainScript) : path = mainScript := by
  have hchars : path.toList.map (fun c => if c = '\\' then '/' else c) = mainScript.toList :=
    (congrArg String.toList h).symm.trans String.toList_ofList |>.symm
  have hkept : ∀ c ∈ path.toList, (if c = '\\' then '/' else c) = c := by
    intro c hc
    rw [if_neg]
    rintro rfl
    have hslash : '/' ∈ mainScript.toList := hchars ▸ List.mem_map.mpr ⟨_, hc, rfl⟩
    exact absurd hslash (by decide)
  rw [List.map_congr_left hkept, List.map_id'] at hchars
  exact String.toList_injective hchars

section

variable {folder : Folder}

/-- With one file to a path, every file is read as it is. -/
theorem Folder.read_of_mem (hpaths : (folder.files.map Prod.fst).Nodup) {file : String × ByteArray}
    (hfile : file ∈ folder.files) : folder.read file.1 = .ok file.2 := by
  have hsome : (folder.files.find? (·.1 == file.1)).isSome :=
    List.find?_isSome.mpr ⟨file, hfile, beq_self_eq_true _⟩
  obtain ⟨found, hfound⟩ := Option.isSome_iff_exists.mp hsome
  have hpath : found.1 = file.1 := by simpa using List.find?_some hfound
  obtain rfl := List.inj_on_of_nodup_map hpaths (List.mem_of_find?_eq_some hfound) hfile hpath
  rw [read, hfound]

theorem Folder.readText_eq_ok_iff (hpaths : (folder.files.map Prod.fst).Nodup) {file : String × ByteArray}
    (hfile : file ∈ folder.files) (text : String) : folder.readText file.1 = .ok text ↔ file.2 = text.toUTF8 := by
  rw [readText, read_of_mem hpaths hfile, ← Text.Utf8.decode?_eq_some_iff]
  simp only [bind, Except.bind]
  cases Text.Utf8.decode? file.2 <;> simp

/-- An entry that is made from a file. -/
def EntryOf (file : String × ByteArray) (entry : String × String) : Prop :=
  entry.1 = slashed file.1 ∧ file.2 = entry.2.toUTF8

def entryFor (file : String × ByteArray) : String × String := (slashed file.1, (Text.Utf8.decode? file.2).getD "")

theorem EntryOf.eq_entryFor {file : String × ByteArray} {entry : String × String} (h : EntryOf file entry) :
    entry = entryFor file := by
  rw [entryFor, (Text.Utf8.decode?_eq_some_iff _ _).mpr h.2, ← h.1]
  rfl

theorem Sources.mem_insert_self (sources : Sources) (path script : String) :
    (path, script) ∈ sources.insert path script := by
  induction sources with
  | nil => exact List.mem_singleton_self _
  | cons first rest ih =>
    unfold Sources.insert
    split
    · exact List.mem_cons_self
    · exact List.mem_cons_self
    · exact List.mem_cons_of_mem _ ih

theorem Sources.exists_mem_insert {sources : Sources} {source : String × String} (h : source ∈ sources)
    (path script : String) : ∃ text, (source.1, text) ∈ sources.insert path script := by
  induction sources with
  | nil => exact absurd h List.not_mem_nil
  | cons first rest ih =>
    unfold Sources.insert
    split
    · exact ⟨source.2, List.mem_cons_of_mem _ h⟩
    · next heq =>
      rcases List.mem_cons.mp h with rfl | h
      · exact ⟨script, Std.LawfulEqOrd.eq_of_compare heq ▸ List.mem_cons_self⟩
      · exact ⟨source.2, List.mem_cons_of_mem _ h⟩
    · rcases List.mem_cons.mp h with rfl | h
      · exact ⟨source.2, List.mem_cons_self⟩
      · obtain ⟨text, htext⟩ := ih h
        exact ⟨text, List.mem_cons_of_mem _ htext⟩

/-- The files of which some are gathered already: every script among them must be text. -/
theorem gather_isOk_iff (hpaths : (folder.files.map Prod.fst).Nodup) {files : List (String × ByteArray)}
    (hfiles : files ⊆ folder.files) (sources : Sources) :
    (∃ gathered, gather folder files sources = .ok gathered) ↔
      ∀ file ∈ files, IsScript file.1 → ∃ text : String, file.2 = text.toUTF8 := by
  induction files generalizing sources with
  | nil => exact ⟨fun _ => List.forall_mem_nil _, fun _ => ⟨sources, rfl⟩⟩
  | cons file rest ih =>
    obtain ⟨hfile, hrest⟩ := List.cons_subset.mp hfiles
    rw [List.forall_mem_cons, gather]
    by_cases hscript : IsScript file.1
    · rw [if_neg (not_not.mpr ((extension?_eq_some_iff _).mpr hscript))]
      cases htext : folder.readText file.1 with
      | error fault =>
        refine ⟨fun ⟨_, h⟩ => (nomatch h), fun h => ?_⟩
        obtain ⟨text, h⟩ := h.1 hscript
        rw [(Folder.readText_eq_ok_iff hpaths hfile text).mpr h] at htext
        cases htext
      | ok script =>
        have hcontent := (Folder.readText_eq_ok_iff hpaths hfile script).mp htext
        exact (ih hrest _).trans ⟨fun h => ⟨fun _ => ⟨script, hcontent⟩, h⟩, fun h => h.2⟩
    · rw [if_pos (mt (extension?_eq_some_iff _).mp hscript)]
      exact (ih hrest _).trans ⟨fun h => ⟨fun h' => absurd h' hscript, h⟩, fun h => h.2⟩

theorem gather_entries (hpaths : (folder.files.map Prod.fst).Nodup) {files : List (String × ByteArray)}
    (hfiles : files ⊆ folder.files) {sources gathered : Sources} (h : gather folder files sources = .ok gathered) :
    (∀ entry ∈ gathered, entry ∈ sources ∨ ∃ file ∈ files, IsScript file.1 ∧ EntryOf file entry) ∧
      (∀ entry ∈ sources, ∃ text, (entry.1, text) ∈ gathered) ∧
      ∀ file ∈ files, IsScript file.1 → ∃ text, (slashed file.1, text) ∈ gathered := by
  induction files generalizing sources with
  | nil =>
    cases h
    exact ⟨fun entry hentry => .inl hentry, fun entry hentry => ⟨entry.2, hentry⟩, List.forall_mem_nil _⟩
  | cons file rest ih =>
    obtain ⟨hfile, hrest⟩ := List.cons_subset.mp hfiles
    rw [gather] at h
    by_cases hscript : IsScript file.1
    · rw [if_neg (not_not.mpr ((extension?_eq_some_iff _).mpr hscript))] at h
      cases htext : folder.readText file.1 with
      | error fault =>
        rw [htext] at h
        cases h
      | ok script =>
        rw [htext] at h
        have hentry : EntryOf file (slashed file.1, script) :=
          ⟨rfl, (Folder.readText_eq_ok_iff hpaths hfile script).mp htext⟩
        obtain ⟨honly, hkept, hevery⟩ := ih hrest h
        refine ⟨?_, ?_, ?_⟩
        · intro entry hmem
          rcases honly entry hmem with hmem | ⟨other, hother, hmade⟩
          · rcases Sources.mem_insert hmem with rfl | hmem
            · exact .inr ⟨file, List.mem_cons_self, hscript, hentry⟩
            · exact .inl hmem
          · exact .inr ⟨other, List.mem_cons_of_mem _ hother, hmade⟩
        · intro entry hmem
          obtain ⟨text, hinserted⟩ := Sources.exists_mem_insert hmem (slashed file.1) script
          exact hkept (entry.1, text) hinserted
        · exact List.forall_mem_cons.mpr ⟨fun _ => hkept _ (Sources.mem_insert_self sources _ script), hevery⟩
    · rw [if_pos (mt (extension?_eq_some_iff _).mp hscript)] at h
      obtain ⟨honly, hkept, hevery⟩ := ih hrest h
      refine ⟨?_, hkept, List.forall_mem_cons.mpr ⟨fun h' => absurd h' hscript, hevery⟩⟩
      intro entry hmem
      exact (honly entry hmem).imp_right fun ⟨other, hother, hmade⟩ => ⟨other, List.mem_cons_of_mem _ hother, hmade⟩

end

/-- What is gathered from scripts: entries by ascending paths, each made from a script, and one for the path of each. -/
structure Gathered (scripts : List (String × ByteArray)) (sources : Sources) : Prop where
  ascending : sources.Ordered
  only : ∀ entry ∈ sources, ∃ file ∈ scripts, EntryOf file entry
  every : ∀ file ∈ scripts, ∃ text, (slashed file.1, text) ∈ sources

/-- Every script has an entry of its own, and there are no other entries. -/
def OneForOne (scripts : List (String × ByteArray)) (sources : Sources) : Prop :=
  ∃ entries, List.Forall₂ EntryOf scripts entries ∧ entries.Perm sources

/-- No two scripts have paths that differ in nothing but slashes and backslashes. -/
def Apart (scripts : List (String × ByteArray)) : Prop :=
  ∀ a ∈ scripts, ∀ b ∈ scripts, slashed a.1 = slashed b.1 → a.1 = b.1

theorem Sources.Ordered.nodup_paths {sources : Sources} (h : sources.Ordered) : (sources.map Prod.fst).Nodup := by
  rw [List.Nodup, List.pairwise_map]
  refine h.imp fun {a b} hlt heq => ?_
  have hself : compare b.1 b.1 = .eq := Std.ReflCmp.compare_self
  rw [heq, hself] at hlt
  cases hlt

theorem Sources.Ordered.eq_of_perm {a b : Sources} (ha : a.Ordered) (hb : b.Ordered) (h : a.Perm b) : a = b := by
  refine h.eq_of_pairwise ?_ ha hb
  intro x y _ _ hxy hyx
  rw [Std.OrientedCmp.gt_iff_lt.mpr hyx] at hxy
  cases hxy

section

variable {scripts : List (String × ByteArray)} {sources : Sources}

theorem Gathered.entryOf_entryFor (h : Gathered scripts sources) (hpaths : (scripts.map Prod.fst).Nodup)
    (hapart : Apart scripts) {file : String × ByteArray} (hfile : file ∈ scripts) :
    entryFor file ∈ sources ∧ EntryOf file (entryFor file) := by
  obtain ⟨text, htext⟩ := h.every file hfile
  obtain ⟨other, hother, hmade⟩ := h.only _ htext
  -- the entry under the path of the file is made from no other file
  obtain rfl := List.inj_on_of_nodup_map hpaths hfile hother (hapart _ hfile _ hother hmade.1)
  exact hmade.eq_entryFor ▸ ⟨htext, hmade⟩

theorem Gathered.mem_iff (h : Gathered scripts sources) (hpaths : (scripts.map Prod.fst).Nodup) (hapart : Apart scripts)
    (entry : String × String) : entry ∈ sources ↔ ∃ file ∈ scripts, EntryOf file entry := by
  refine ⟨h.only entry, ?_⟩
  rintro ⟨file, hfile, hentry⟩
  exact hentry.eq_entryFor ▸ (h.entryOf_entryFor hpaths hapart hfile).1

/-- With an entry for every script, no two scripts share the path of an entry. -/
theorem OneForOne.apart (h : OneForOne scripts sources) (hascending : sources.Ordered) : Apart scripts := by
  obtain ⟨entries, hentries, hperm⟩ := h
  intro a ha b hb hsame
  have hkeys : scripts.map (fun file => slashed file.1) = entries.map Prod.fst := by
    rw [← List.forall₂_eq_eq_eq, List.forall₂_map_left_iff, List.forall₂_map_right_iff]
    exact hentries.imp fun _ _ hentry => hentry.1.symm
  have hnodup : (scripts.map fun file => slashed file.1).Nodup :=
    hkeys ▸ (hperm.map Prod.fst).nodup_iff.mpr hascending.nodup_paths
  exact congrArg Prod.fst (List.inj_on_of_nodup_map hnodup ha hb hsame)

theorem Apart.nodup_entryFor (h : Apart scripts) (hpaths : (scripts.map Prod.fst).Nodup) :
    (scripts.map entryFor).Nodup := by
  have hkeys : (scripts.map fun file => slashed file.1).Nodup :=
    hpaths.of_map.map_on fun a ha b hb hsame => List.inj_on_of_nodup_map hpaths ha hb (h a ha b hb hsame)
  refine List.Nodup.of_map Prod.fst ?_
  rwa [List.map_map]

theorem Gathered.oneForOne_iff (h : Gathered scripts sources) (hpaths : (scripts.map Prod.fst).Nodup) :
    OneForOne scripts sources ↔ Apart scripts := by
  refine ⟨fun hone => hone.apart h.ascending, fun hapart => ⟨scripts.map entryFor, ?_, ?_⟩⟩
  · rw [List.forall₂_map_right_iff, List.forall₂_same]
    exact fun file hfile => (h.entryOf_entryFor hpaths hapart hfile).2
  · rw [List.perm_ext_iff_of_nodup (hapart.nodup_entryFor hpaths) h.ascending.nodup_paths.of_map]
    intro entry
    rw [h.mem_iff hpaths hapart, List.mem_map]
    constructor
    · rintro ⟨file, hfile, rfl⟩
      exact ⟨file, hfile, (h.entryOf_entryFor hpaths hapart hfile).2⟩
    · rintro ⟨file, hfile, hentry⟩
      exact ⟨file, hfile, hentry.eq_entryFor.symm⟩

theorem Gathered.unique {others : List (String × ByteArray)} {sources' : Sources} (h : Gathered scripts sources)
    (h' : Gathered others sources') (hpaths : (scripts.map Prod.fst).Nodup) (hapart : Apart scripts)
    (hperm : others.Perm scripts) : sources' = sources := by
  have hpaths' := (hperm.map Prod.fst).nodup_iff.mpr hpaths
  have hapart' : Apart others := fun a ha b hb => hapart a (hperm.mem_iff.mp ha) b (hperm.mem_iff.mp hb)
  refine h'.ascending.eq_of_perm h.ascending ?_
  rw [List.perm_ext_iff_of_nodup h'.ascending.nodup_paths.of_map h.ascending.nodup_paths.of_map]
  intro entry
  rw [h.mem_iff hpaths hapart, h'.mem_iff hpaths' hapart']
  simp only [hperm.mem_iff]

end

section

variable {folder : Folder}

theorem Folder.nodup_scripts (hpaths : (folder.files.map Prod.fst).Nodup) : (folder.scripts.map Prod.fst).Nodup :=
  hpaths.sublist (List.filter_sublist.map Prod.fst)

theorem readSources_eq_ok_iff (sources : Sources) : readSources folder = .ok sources ↔
    gather folder folder.files [] = .ok sources ∧ ∃ text, (mainScript, text) ∈ sources := by
  simp only [readSources, bind, Except.bind]
  cases gather folder folder.files [] with
  | error error => simp
  | ok gathered =>
    have hany : gathered.any (·.1 == mainScript) = true ↔ ∃ text, (mainScript, text) ∈ gathered := by
      simp only [List.any_eq_true, beq_iff_eq, Prod.exists]
      constructor
      · rintro ⟨path, text, hmem, hpath⟩
        exact ⟨text, hpath ▸ hmem⟩
      · rintro ⟨text, hmem⟩
        exact ⟨_, text, hmem, rfl⟩
    by_cases hmain : ∃ text, (mainScript, text) ∈ gathered
    · simp only [if_pos (hany.mpr hmain), Except.ok.injEq]
      exact ⟨fun h => ⟨h, h ▸ hmain⟩, fun h => h.1⟩
    · simp only [if_neg (mt hany.mp hmain), reduceCtorEq, Except.ok.injEq, false_iff, not_and]
      rintro rfl
      exact hmain

theorem gathered_of_gather (hpaths : (folder.files.map Prod.fst).Nodup) {sources : Sources}
    (h : gather folder folder.files [] = .ok sources) : Gathered folder.scripts sources := by
  obtain ⟨honly, -, hevery⟩ := gather_entries hpaths (List.Subset.refl _) h
  refine ⟨gather_ordered List.Pairwise.nil h, ?_, ?_⟩
  · intro entry hentry
    obtain ⟨file, hfile, hscript, hmade⟩ := (honly entry hentry).resolve_left List.not_mem_nil
    exact ⟨file, Folder.mem_scripts.mpr ⟨hfile, hscript⟩, hmade⟩
  · intro file hfile
    obtain ⟨hmem, hscript⟩ := Folder.mem_scripts.mp hfile
    exact hevery file hmem hscript

theorem readSources_isOk_iff (hpaths : (folder.files.map Prod.fst).Nodup) :
    (∃ sources, readSources folder = .ok sources) ↔
      (∀ file ∈ folder.scripts, ∃ text : String, file.2 = text.toUTF8) ∧ mainScript ∈ folder.files.map Prod.fst := by
  have hgather := gather_isOk_iff hpaths (List.Subset.refl _) []
  simp only [Folder.mem_scripts, and_imp, readSources_eq_ok_iff]
  rw [← hgather]
  constructor
  · rintro ⟨sources, hsources, text, hmain⟩
    obtain ⟨file, hfile, hentry⟩ := (gathered_of_gather hpaths hsources).only _ hmain
    have hpath := slashed_eq_mainScript hentry.1.symm
    exact ⟨⟨sources, hsources⟩, List.mem_map.mpr ⟨file, (Folder.mem_scripts.mp hfile).1, hpath⟩⟩
  · rintro ⟨⟨sources, hsources⟩, hmain⟩
    obtain ⟨file, hfile, hpath⟩ := List.mem_map.mp hmain
    have hscript : file ∈ folder.scripts := Folder.mem_scripts.mpr ⟨hfile, hpath ▸ isScript_mainScript⟩
    obtain ⟨text, htext⟩ := (gathered_of_gather hpaths hsources).every file hscript
    have hsame : slashed mainScript = mainScript := by decide
    rw [hpath, hsame] at htext
    exact ⟨sources, hsources, text, htext⟩

/-- The sources of a folder can be read if all its scripts are text and the main script is among them. Every script then
has an entry of its own, with its whole text and in whatever order the files are met, if no two scripts have paths that
differ only in slashes and backslashes, and only then. -/
theorem readSources_gathers (hpaths : (folder.files.map Prod.fst).Nodup) :
    ((∃ sources, readSources folder = .ok sources) ↔
        (∀ file ∈ folder.scripts, ∃ text : String, file.2 = text.toUTF8) ∧ mainScript ∈ folder.files.map Prod.fst) ∧
      ∀ sources, readSources folder = .ok sources →
        Gathered folder.scripts sources ∧ (OneForOne folder.scripts sources ↔ Apart folder.scripts) ∧
          (Apart folder.scripts → ∀ other : Folder, other.files.Perm folder.files → readSources other = .ok sources) := by
  have hscripts := Folder.nodup_scripts hpaths
  refine ⟨readSources_isOk_iff hpaths, ?_⟩
  intro sources hsources
  have hgathered := gathered_of_gather hpaths ((readSources_eq_ok_iff sources).mp hsources).1
  refine ⟨hgathered, hgathered.oneForOne_iff hscripts, ?_⟩
  intro hapart other hperm
  have hpaths' := (hperm.map Prod.fst).nodup_iff.mpr hpaths
  have hperm' : other.scripts.Perm folder.scripts := hperm.filter _
  obtain ⟨htexts, hmain⟩ := (readSources_isOk_iff hpaths).mp ⟨sources, hsources⟩
  obtain ⟨sources', hsources'⟩ : ∃ sources', readSources other = .ok sources' := by
    rw [readSources_isOk_iff hpaths', (hperm.map Prod.fst).mem_iff]
    exact ⟨fun file hfile => htexts file (hperm'.mem_iff.mp hfile), hmain⟩
  have hgathered' := gathered_of_gather hpaths' ((readSources_eq_ok_iff sources').mp hsources').1
  rw [hsources', hgathered.unique hgathered' hscripts hapart hperm']

end

theorem eq_ok_of_toOption {ε α : Type} {r : Except ε α} {a : α} (h : r.toOption = some a) : r = .ok a := by
  cases r with
  | error _ => cases h
  | ok _ => exact congrArg Except.ok (Option.some.inj h)

/-- A folder with scripts at two depths, and with files that are no scripts though they look like some. -/
def nestedFolder : Folder where
  files := [("w\\in.lua", "y = 2".toUTF8), ("main.lua", "x = 1".toUTF8), (".lua", ⟨#[0xff]⟩), ("lib/a.b.lua", "".toUTF8),
    ("dir.lua/main.luac", ⟨#[0xff]⟩)]
  folders := ["sub.lua"]

theorem readSources_gathers_nested : (nestedFolder.files.map Prod.fst).Nodup ∧
    readSources nestedFolder = .ok [("lib/a.b.lua", ""), ("main.lua", "x = 1"), ("w/in.lua", "y = 2")] ∧
    OneForOne nestedFolder.scripts [("lib/a.b.lua", ""), ("main.lua", "x = 1"), ("w/in.lua", "y = 2")] := by
  have hpaths : (nestedFolder.files.map Prod.fst).Nodup := by decide
  have hapart : Apart nestedFolder.scripts := by
    unfold Apart
    decide +kernel
  have hread : readSources nestedFolder =
      .ok [("lib/a.b.lua", ""), ("main.lua", "x = 1"), ("w/in.lua", "y = 2")] := by
    have hsome : (readSources nestedFolder).toOption =
        some [("lib/a.b.lua", ""), ("main.lua", "x = 1"), ("w/in.lua", "y = 2")] := by decide +kernel
    exact eq_ok_of_toOption hsome
  exact ⟨hpaths, hread, ((readSources_gathers hpaths).2 _ hread).2.1.mpr hapart⟩

def mergedFolder : Folder where
  files := [("main.lua", "".toUTF8), ("a/b.lua", "x=1".toUTF8), ("a\\b.lua", "x=1".toUTF8)]

theorem readSources_merges : readSources mergedFolder = .ok [("a/b.lua", "x=1"), ("main.lua", "")] ∧
    mergedFolder.scripts = mergedFolder.files ∧
    ¬ OneForOne mergedFolder.scripts [("a/b.lua", "x=1"), ("main.lua", "")] := by
  have hread : (readSources mergedFolder).toOption = some [("a/b.lua", "x=1"), ("main.lua", "")] := by decide +kernel
  have hscripts : mergedFolder.scripts = mergedFolder.files := by
    rw [Folder.scripts, List.filter_eq_self]
    decide +kernel
  refine ⟨eq_ok_of_toOption hread, hscripts, ?_⟩
  rintro ⟨entries, hentries, hperm⟩
  -- three scripts, two entries
  have hlength := hentries.length_eq.trans hperm.length_eq
  rw [hscripts] at hlength
  exact absurd hlength (by decide)

end ScriptHost.Case
