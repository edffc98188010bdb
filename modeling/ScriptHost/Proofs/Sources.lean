import Mathlib.Tactic.SplitIfs
import ScriptHost.Case.Sources
import ScriptHost.Proofs.Spelling

/-! # The order of sources

The sources of a case are kept in the order of their paths as texts. That is the order of the bytes which spell the
paths: no spelling of a character begins another one, and a greater character has greater bytes where the two spellings
part. -/

namespace ScriptHost

namespace Text.Utf8

/-- A number that is greater is greater in the digits before the last, or in the last. -/
theorem digits_lt {v w : Nat} (h : v < w) : v / 64 < w / 64 ∨ v / 64 = w / 64 ∧ v % 64 < w % 64 := by omega

theorem encodeChar_lt {c d : Char} (h : c < d) (r r' : List UInt8) :
    String.utf8EncodeChar c ++ r < String.utf8EncodeChar d ++ r' := by
  have hlt : c.val.toNat < d.val.toNat := h
  have hd : d.val.toNat < 1114112 := by
    rcases d.valid with h | h <;> omega
  unfold String.utf8EncodeChar
  generalize c.val.toNat = v at *
  generalize d.val.toNat = w at *
  simp only
  split_ifs
  all_goals
    simp only [List.cons_append, List.nil_append, List.cons_lt_cons_iff, UInt8.lt_iff_toNat_lt, ← UInt8.toNat_inj,
      UInt8.toNat_ofNat']
    try omega
  -- two spellings of four bytes: the digits are compared from the first on
  have h4096 (n : Nat) : n / 4096 = n / 64 / 64 := by omega
  have h262144 (n : Nat) : n / 262144 = n / 64 / 64 / 64 := by omega
  have hlead (n : Nat) (hn : n < 1114112) : n / 64 / 64 / 64 < 8 := by omega
  simp only [h4096, h262144]
  rcases digits_lt hlt with hhigh | ⟨hsame, hlast⟩
  · rcases digits_lt hhigh with hhigher | ⟨hsame, hlast⟩
    · have hv := hlead v (by omega)
      have hw := hlead w hd
      generalize v / 64 / 64 = v' at *
      generalize w / 64 / 64 = w' at *
      omega
    · rw [hsame]
      omega
  · rw [hsame]
    omega

theorem encode_lt {cs ds : List Char} (h : cs < ds) :
    cs.flatMap String.utf8EncodeChar < ds.flatMap String.utf8EncodeChar := by
  change List.Lex (· < ·) cs ds at h
  induction h with
  | @nil c cs =>
    obtain ⟨b, bs, hb⟩ := List.exists_cons_of_ne_nil (String.utf8EncodeChar_ne_nil (c := c))
    rw [List.flatMap_cons, hb]
    exact List.nil_lt_cons ..
  | rel h => exact encodeChar_lt h _ _
  | cons _ ih => exact List.append_left_lt ih

theorem spelling_lt {s t : String} (h : compare s t = .lt) : spelling s < spelling t := by
  have hlt : s < t := compareOfLessAndEq_eq_lt.mp h
  rw [spelling_eq, spelling_eq]
  exact encode_lt (String.lt_iff.mp hlt)

end Text.Utf8

namespace Case

open Text.Utf8 (spelling spelling_lt)

namespace Sources

def Ordered (sources : Sources) : Prop := sources.Pairwise fun a b => compare a.1 b.1 = .lt

def Ascending (sources : Sources) : Prop := sources.Pairwise fun a b => spelling a.1 < spelling b.1

theorem Ordered.ascending {sources : Sources} (h : sources.Ordered) : sources.Ascending := h.imp spelling_lt

theorem mem_insert {path script : String} {sources : Sources} {source : String × String}
    (h : source ∈ sources.insert path script) : source = (path, script) ∨ source ∈ sources := by
  induction sources with
  | nil => simpa [insert] using h
  | cons first rest ih =>
    unfold insert at h
    split at h
    · simpa using h
    · rcases List.mem_cons.mp h with rfl | h
      · exact Or.inl rfl
      · exact Or.inr (List.mem_cons_of_mem _ h)
    · rcases List.mem_cons.mp h with rfl | h
      · exact Or.inr List.mem_cons_self
      · exact (ih h).imp_right (List.mem_cons_of_mem _)

theorem Ordered.insert {sources : Sources} (h : sources.Ordered) (path script : String) :
    (sources.insert path script).Ordered := by
  induction sources with
  | nil => exact List.pairwise_singleton ..
  | cons first rest ih =>
    obtain ⟨hfirst, hrest⟩ := List.pairwise_cons.mp h
    unfold Sources.insert
    split
    · next hlt =>
      refine List.pairwise_cons.mpr ⟨fun source hsource => ?_, h⟩
      rcases List.mem_cons.mp hsource with rfl | hsource
      · exact hlt
      · exact Std.TransCmp.lt_trans hlt (hfirst source hsource)
    · next heq =>
      have hpath : path = first.1 := Std.LawfulEqOrd.eq_of_compare heq
      exact List.pairwise_cons.mpr ⟨fun source hsource => hpath ▸ hfirst source hsource, hrest⟩
    · next hgt =>
      refine List.pairwise_cons.mpr ⟨fun source hsource => ?_, ih hrest⟩
      rcases mem_insert hsource with rfl | hsource
      · exact Std.OrientedCmp.gt_iff_lt.mp hgt
      · exact hfirst source hsource

end Sources

theorem gather_ordered {folder : Folder} {files : List (String × ByteArray)} {sources gathered : Sources}
    (hsources : sources.Ordered) (h : gather folder files sources = .ok gathered) : gathered.Ordered := by
  induction files generalizing sources with
  | nil =>
    cases h
    exact hsources
  | cons file rest ih =>
    unfold gather at h
    split at h
    · exact ih hsources h
    · split at h
      · cases h
      · exact ih (hsources.insert ..) h

/-- The sources of a folder ascend by the bytes of their paths, and the main script is among them. -/
theorem readSources_eq_ok {folder : Folder} {sources : Sources} (h : readSources folder = .ok sources) :
    sources.Ascending ∧ ∃ main, sources.find? (·.1 == mainScript) = some (mainScript, main) := by
  simp only [readSources, bind, Except.bind] at h
  cases hgather : gather folder folder.files [] with
  | error error => simp [hgather] at h
  | ok gathered =>
    simp only [hgather] at h
    split at h
    · next hmain =>
      cases h
      refine ⟨(gather_ordered List.Pairwise.nil hgather).ascending, ?_⟩
      obtain ⟨⟨path, main⟩, hfind⟩ := Option.isSome_iff_exists.mp (List.find?_isSome.mpr (List.any_eq_true.mp hmain))
      have hpath : path = mainScript := by simpa using List.find?_some hfind
      exact ⟨main, hpath ▸ hfind⟩
    · cases h

end Case

end ScriptHost
