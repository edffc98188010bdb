import Mathlib
import ScriptHost.EngineOptions
import ScriptHost.Proofs.Numerals

/-! # Which settings are taken

The text of a setting is taken without the blanks around it. A level is then one of eight words, in which ASCII capitals
count as their small letters; a limit is a number of 64 bits in ASCII digits, with or without a plus sign. What is not
taken is reported as it was given, the level before the limit. -/

namespace ScriptHost

namespace Text

/-- A text without the blanks around it. -/
structure Trims (cs word : List Char) : Prop where
  around : ∃ before after, cs = before ++ (word ++ after) ∧ (∀ c ∈ before, isBlank c) ∧ ∀ c ∈ after, isBlank c
  first : ∀ c ∈ word.head?, ¬ isBlank c
  last : ∀ c ∈ word.getLast?, ¬ isBlank c

theorem trimChars_eq (cs : List Char) : trimChars cs = (cs.dropWhile isBlank).rdropWhile isBlank := rfl

theorem dropWhile_of_head {p : Char → Bool} {cs : List Char} (h : ∀ c ∈ cs.head?, ¬ p c) : cs.dropWhile p = cs := by
  cases cs with
  | nil => rfl
  | cons c cs => exact List.dropWhile_cons_of_neg (h c rfl)

theorem trims_trimChars (cs : List Char) : Trims cs (trimChars cs) := by
  rw [trimChars_eq]
  refine ⟨⟨cs.takeWhile isBlank, (cs.dropWhile isBlank).rtakeWhile isBlank, ?_, ?_, ?_⟩, ?_, ?_⟩
  · rw [List.rdropWhile_append_rtakeWhile, List.takeWhile_append_dropWhile]
  · exact fun c hc => List.mem_takeWhile_imp hc
  · exact fun c hc => List.mem_rtakeWhile_imp hc
  · intro c hc
    -- the first character is that of the text without the leading blanks
    obtain ⟨rest, hrest⟩ := List.rdropWhile_prefix isBlank (cs.dropWhile isBlank)
    have hhead : (cs.dropWhile isBlank).head? = some c := by
      rw [← hrest, List.head?_append, Option.mem_def.mp hc]
      rfl
    have hnot := List.head?_dropWhile_not isBlank cs
    rw [hhead] at hnot
    exact Bool.eq_false_iff.mp hnot
  · intro c hc
    obtain ⟨hne, hlast⟩ := List.mem_getLast?_eq_getLast hc
    rw [hlast]
    exact List.rdropWhile_last_not isBlank _ hne

theorem Trims.eq {cs word : List Char} (h : Trims cs word) : trimChars cs = word := by
  obtain ⟨⟨before, after, rfl, hbefore, hafter⟩, hfirst, hlast⟩ := h
  rw [trimChars_eq, List.dropWhile_append_of_pos hbefore]
  cases word with
  | nil => rw [List.nil_append, List.dropWhile_eq_nil_iff.mpr hafter, List.rdropWhile_nil]
  | cons c word =>
    have hreverse : ∀ x ∈ (c :: word).reverse.head?, ¬ isBlank x := by rwa [List.head?_reverse]
    rw [List.cons_append, List.dropWhile_cons_of_neg (hfirst c rfl), ← List.cons_append, List.rdropWhile,
      List.reverse_append, List.dropWhile_append_of_pos fun x hx => hafter x (List.mem_reverse.mp hx),
      dropWhile_of_head hreverse, List.reverse_reverse]

theorem trimChars_eq_iff (cs word : List Char) : trimChars cs = word ↔ Trims cs word :=
  ⟨fun h => h ▸ trims_trimChars cs, Trims.eq⟩

/-- Characters that differ at most in the case of an ASCII letter. -/
inductive SameLetter : Char → Char → Prop
  | same (c : Char) : SameLetter c c
  | capital {c d : Char} (hc : c.isUpper) (hd : d.toNat = c.toNat + 32) : SameLetter c d
  | small {c d : Char} (hd : d.isUpper) (hc : c.toNat = d.toNat + 32) : SameLetter c d

theorem isUpper_iff (c : Char) : c.isUpper ↔ 65 ≤ c.toNat ∧ c.toNat ≤ 90 := by
  simp [Char.isUpper, UInt32.le_iff_toNat_le]

theorem toNat_toLower {c : Char} (h : c.isUpper) : c.toLower.toNat = c.toNat + 32 := by
  have hrange := (isUpper_iff c).mp h
  have hvalid : (c.toNat + 32).isValidChar := Or.inl (by omega)
  rw [Char.toLower_eq_of_isUpper h, Char.toNat_ofNat, if_pos hvalid]

theorem toLower_capital {c d : Char} (hc : c.isUpper) (hd : d.toNat = c.toNat + 32) : c.toLower = d.toLower := by
  have hsmall : ¬ d.isUpper := by
    rw [isUpper_iff] at hc ⊢
    omega
  rw [← Char.toNat_inj, toNat_toLower hc, Char.toLower_eq_of_not_isUpper hsmall, hd]

theorem toLower_eq_iff (c d : Char) : c.toLower = d.toLower ↔ SameLetter c d := by
  constructor
  · intro h
    have hnat := congrArg Char.toNat h
    by_cases hc : c.isUpper <;> by_cases hd : d.isUpper
    · rw [toNat_toLower hc, toNat_toLower hd, Nat.add_right_cancel_iff, Char.toNat_inj] at hnat
      exact hnat ▸ .same c
    · rw [toNat_toLower hc, Char.toLower_eq_of_not_isUpper hd] at hnat
      exact .capital hc hnat.symm
    · rw [toNat_toLower hd, Char.toLower_eq_of_not_isUpper hc] at hnat
      exact .small hd hnat
    · rw [Char.toLower_eq_of_not_isUpper hc, Char.toLower_eq_of_not_isUpper hd] at h
      exact h ▸ .same c
  · intro h
    cases h with
    | same => rfl
    | capital hc hd => exact toLower_capital hc hd
    | small hd hc => exact (toLower_capital hd hc).symm

/-- Texts that differ at most in the case of ASCII letters. -/
def SameWord (cs ds : List Char) : Prop := List.Forall₂ SameLetter cs ds

theorem map_toLower_eq_iff (cs ds : List Char) : cs.map Char.toLower = ds.map Char.toLower ↔ SameWord cs ds := by
  rw [← List.forall₂_eq_eq_eq, List.forall₂_map_left_iff, List.forall₂_map_right_iff]
  simp only [toLower_eq_iff]
  rfl

end Text

namespace LogLevel

open Text (SameWord Trims)

/-- The words for the levels. -/
inductive Word : String → LogLevel → Prop
  | trace : Word "trace" .trace
  | all : Word "all" .trace
  | debug : Word "debug" .debug
  | info : Word "info" .info
  | warn : Word "warn" .warn
  | error : Word "error" .error
  | fatal : Word "fatal" .fatal
  | off : Word "off" .off

/-- Between blanks, a text is a word for a level in whatever case. -/
def Names (raw : String) (l : LogLevel) : Prop :=
  ∃ word name, Trims raw.toList word ∧ SameWord word name.toList ∧ Word name l

theorem Word.lower {name : String} {l : LogLevel} (h : Word name l) : name.toList.map Char.toLower = name.toList := by
  cases h <;> decide

theorem word_name (l : LogLevel) : Word l.name l := by cases l <;> constructor

theorem word_iff (word : String) (l : LogLevel) :
    (if word = "all" then some trace else ofName? word) = some l ↔ Word word l := by
  constructor
  · intro h
    split at h
    · next hall =>
      cases h
      exact hall ▸ .all
    · have hname : l.name = word := by simpa using List.find?_some h
      exact hname ▸ word_name l
  · intro h
    cases h <;> rfl

theorem toList_lowerAscii_trim (raw : String) :
    (Text.lowerAscii (Text.trim raw)).toList = (Text.trimChars raw.toList).map Char.toLower := by
  simp [Text.lowerAscii, Text.trim]

theorem parse?_eq_some_iff (raw : String) (l : LogLevel) : parse? raw = some l ↔ Names raw l := by
  have hlowered := toList_lowerAscii_trim raw
  rw [parse?, word_iff]
  constructor
  · intro h
    refine ⟨Text.trimChars raw.toList, _, Text.trims_trimChars _, ?_, h⟩
    rw [← Text.map_toLower_eq_iff, h.lower, hlowered]
  · rintro ⟨word, name, htrims, hsame, h⟩
    rw [← Text.map_toLower_eq_iff, h.lower, ← htrims.eq, ← hlowered, String.toList_inj] at hsame
    exact hsame ▸ h

end LogLevel

namespace EngineOptions

open Decimal (Denotes)
open LogLevel (Names)
open Text (Trims)

/-- Between blanks and behind at most one plus sign, a text is a number of 64 bits in digits. -/
def Counts (raw : String) (n : Nat) : Prop :=
  ∃ ds, (Trims raw.toList ds ∨ Trims raw.toList ('+' :: ds)) ∧ ds ≠ [] ∧ Denotes ds n ∧ n < 2 ^ 64

theorem count_eq_some_iff (ds : List Char) (n : Nat) :
    (let (m, count, rest) := Decimal.digitRun 10 ds 0 0
      if 0 < count ∧ rest.isEmpty ∧ m < 2 ^ 64 then some m else none) = some n ↔
      ds ≠ [] ∧ Denotes ds n ∧ n < 2 ^ 64 := by
  rcases hread : Decimal.digitRun 10 ds 0 0 with ⟨m, count, rest⟩
  simp only [Option.ite_none_right_eq_some, Option.some.injEq, List.isEmpty_iff,
    Decimal.denotes_iff_of_digitRun hread]
  constructor
  · rintro ⟨⟨hcount, rfl, hlt⟩, rfl⟩
    rw [← ((Decimal.digitRun_eq_iff ds m count).mp hread).2] at hcount
    exact ⟨List.ne_nil_of_length_pos hcount, ⟨rfl, rfl⟩, hlt⟩
  · rintro ⟨hne, ⟨rfl, rfl⟩, hlt⟩
    have hlength := ((Decimal.digitRun_eq_iff ds m count).mp hread).2
    exact ⟨⟨hlength ▸ List.length_pos_of_ne_nil hne, rfl, hlt⟩, rfl⟩

theorem byteCount?_eq_some_iff (raw : String) (n : Nat) : byteCount? raw = some n ↔ Counts raw n := by
  unfold byteCount?
  split
  · next rest hplus =>
    rw [count_eq_some_iff]
    constructor
    · intro h
      exact ⟨rest, Or.inr ((Text.trimChars_eq_iff _ _).mp hplus), h⟩
    · rintro ⟨ds, htrims | htrims, h⟩
      · have hds : ds = '+' :: rest := htrims.eq.symm.trans hplus
        exact absurd (hds ▸ List.mem_cons_self) h.2.1.plus_notMem
      · obtain rfl : ds = rest := by simpa using htrims.eq.symm.trans hplus
        exact h
  · next hplain =>
    rw [count_eq_some_iff]
    constructor
    · intro h
      exact ⟨_, Or.inl (Text.trims_trimChars _), h⟩
    · rintro ⟨ds, htrims | htrims, h⟩
      · rw [htrims.eq]
        exact h
      · exact absurd htrims.eq (hplain ds)

/-- What a setting gives: the value that its text means, or a given one if the setting is absent. -/
inductive Gives {α : Type} (Means : String → α → Prop) (absent : α) : Option String → α → Prop
  | absent : Gives Means absent none absent
  | read {raw : String} {a : α} (h : Means raw a) : Gives Means absent (some raw) a

section Reading

variable {α : Type} {parse? : String → Option α} {Means : String → α → Prop}

theorem readSetting_eq_ok_iff (hparse : ∀ raw a, parse? raw = some a ↔ Means raw a) (absent : α)
    (report : String → String) (setting : Option String) (a : α) :
    readSetting parse? absent report setting = .ok a ↔ Gives Means absent setting a := by
  constructor
  · intro h
    unfold readSetting at h
    split at h
    · cases h
      exact .absent
    · next raw =>
      split at h
      · next hread =>
        cases h
        exact .read ((hparse raw a).mp hread)
      · cases h
  · rintro (_ | h)
    · rfl
    · rw [readSetting, (hparse _ a).mpr h]

theorem readSetting_eq_error_iff (hparse : ∀ raw a, parse? raw = some a ↔ Means raw a) (absent : α)
    (report : String → String) (setting : Option String) (e : HostError) :
    readSetting parse? absent report setting = .error e ↔
      ∃ raw, setting = some raw ∧ (¬ ∃ a, Means raw a) ∧ e = ⟨"ENGINE_CONFIG_INVALID", report raw⟩ := by
  simp only [← hparse]
  constructor
  · intro h
    unfold readSetting at h
    split at h
    · cases h
    · next raw =>
      split at h
      · cases h
      · next hnone =>
        cases h
        exact ⟨raw, rfl, fun ⟨a, ha⟩ => Option.some_ne_none a (ha.symm.trans hnone), rfl⟩
  · rintro ⟨raw, rfl, hnone, rfl⟩
    have hread : parse? raw = none := Option.eq_none_iff_forall_ne_some.mpr fun a ha => hnone ⟨a, ha⟩
    rw [readSetting, hread]

end Reading

/-- The limit that a text means. -/
def Limits (raw : String) (limit : Option Nat) : Prop := ∃ n, Counts raw n ∧ some n = limit

theorem limit_eq_some_iff (raw : String) (limit : Option Nat) :
    (byteCount? raw).map some = some limit ↔ Limits raw limit := by
  simp only [Option.map_eq_some_iff, byteCount?_eq_some_iff, Limits]

theorem exists_limits_iff (raw : String) : (∃ limit, Limits raw limit) ↔ ∃ n, Counts raw n :=
  ⟨fun ⟨_, n, hn, _⟩ => ⟨n, hn⟩, fun ⟨n, hn⟩ => ⟨some n, n, hn, rfl⟩⟩

theorem readLogLevel_eq_ok_iff (setting : Option String) (l : LogLevel) :
    readLogLevel setting = .ok l ↔ Gives Names .info setting l :=
  readSetting_eq_ok_iff LogLevel.parse?_eq_some_iff _ _ setting l

theorem readLogLevel_eq_error_iff (setting : Option String) (e : HostError) :
    readLogLevel setting = .error e ↔ ∃ raw, setting = some raw ∧ (¬ ∃ l, Names raw l) ∧
      e = ⟨"ENGINE_CONFIG_INVALID", s!"LB_LOG_LEVEL has unsupported value \"{raw}\"."⟩ :=
  readSetting_eq_error_iff LogLevel.parse?_eq_some_iff _ _ setting e

theorem readMemoryLimit_eq_ok_iff (setting : Option String) (limit : Option Nat) :
    readMemoryLimit setting = .ok limit ↔ Gives Limits none setting limit :=
  readSetting_eq_ok_iff limit_eq_some_iff _ _ setting limit

theorem readMemoryLimit_eq_error_iff (setting : Option String) (e : HostError) :
    readMemoryLimit setting = .error e ↔ ∃ raw, setting = some raw ∧ (¬ ∃ n, Counts raw n) ∧
      e = ⟨"ENGINE_CONFIG_INVALID", s!"LB_MEMORY_LIMIT must be a byte count, got \"{raw}\"."⟩ := by
  simp only [← exists_limits_iff]
  exact readSetting_eq_error_iff limit_eq_some_iff _ _ setting e

/-- Settings are taken exactly if both are absent or make sense, and give then what they say. Otherwise the one at fault
is named with its text as it was given, and the level is looked at first. -/
theorem ofLookup_reads (lookup : String → Option String) :
    (∀ o : EngineOptions, ofLookup lookup = .ok o ↔
        Gives Names .info (lookup "LB_LOG_LEVEL") o.logLevel ∧
          Gives Limits none (lookup "LB_MEMORY_LIMIT") o.memoryLimit) ∧
      ∀ e : HostError, ofLookup lookup = .error e ↔
        (∃ raw, lookup "LB_LOG_LEVEL" = some raw ∧ (¬ ∃ l, Names raw l) ∧
            e = ⟨"ENGINE_CONFIG_INVALID", s!"LB_LOG_LEVEL has unsupported value \"{raw}\"."⟩) ∨
          (∃ l, Gives Names .info (lookup "LB_LOG_LEVEL") l) ∧
            ∃ raw, lookup "LB_MEMORY_LIMIT" = some raw ∧ (¬ ∃ n, Counts raw n) ∧
              e = ⟨"ENGINE_CONFIG_INVALID", s!"LB_MEMORY_LIMIT must be a byte count, got \"{raw}\"."⟩ := by
  simp only [← readLogLevel_eq_ok_iff, ← readMemoryLimit_eq_ok_iff, ← readLogLevel_eq_error_iff,
    ← readMemoryLimit_eq_error_iff]
  have hlookup : ofLookup lookup = (readLogLevel (lookup "LB_LOG_LEVEL") >>= fun l =>
      readMemoryLimit (lookup "LB_MEMORY_LIMIT") >>= fun m => .ok ⟨l, m⟩) := rfl
  rw [hlookup]
  cases readLogLevel (lookup "LB_LOG_LEVEL") with
  | error e₁ => simp [bind, Except.bind]
  | ok l =>
    cases readMemoryLimit (lookup "LB_MEMORY_LIMIT") with
    | error e₂ => simp [bind, Except.bind]
    | ok limit =>
      refine ⟨fun o => ⟨?_, ?_⟩, fun e => by simp [bind, Except.bind]⟩
      · rintro ⟨⟩
        exact ⟨rfl, rfl⟩
      · rintro ⟨⟨⟩, ⟨⟩⟩
        rfl

/-- Blanks of every kind, capitals, a sign and zeros in front make no difference. -/
example : (ofLookup fun name => if name = "LB_LOG_LEVEL" then some " All\n" else some "\u3000+007").toOption =
    some ⟨.trace, some 7⟩ := by decide +kernel

end EngineOptions

end ScriptHost
