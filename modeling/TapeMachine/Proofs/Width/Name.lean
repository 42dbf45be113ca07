import Mathlib.Data.List.Forall2
import Mathlib.Data.List.TakeWhile
import TapeMachine.Machine

/-!
# Which texts name a width

A text spells a width when the name of the width stands in it, in either letter case, between two
runs of blanks (`CellWidth.Spells`). Reading a width accepts exactly these texts and answers with
the width that is spelled (`CellWidth.parse_eq_ok_iff_spells`); every other text is reported as it
was given. Both are put together in `CellWidth.parse_reads_spelled`, with what follows for blanks,
for letter case and for the machine that is built from the answer.

* `Text.Padded` — a text between two runs of blanks, which trimming takes away;
* `Text.SameButCase` — two texts that differ in the case of letters only. Letters are those from A
  to Z; any other character is the same as itself alone.

Neither of these mentions trimming or folding, which is how a text is read. The two sides meet in
`CellWidth.spells_iff`: a text spells a width exactly if what is left of it after trimming and
folding is the name. What has to be shown for it is that names have no blanks and no capitals, and
that folding does not make blanks of letters or letters of blanks.
-/

namespace TapeMachine

namespace Text

variable {cs ds text : List Char} {c d : Char}

/-! ## Blanks around a text

Trimming is done from both ends. A text of blanks alone is trimmed to nothing from the first end
already. -/

/-- A text stands inside another one, between two runs of blanks. -/
def Padded (cs text : List Char) : Prop :=
  ∃ before after, text = before ++ cs ++ after ∧
    (∀ c ∈ before, isBlank c) ∧ ∀ c ∈ after, isBlank c

/-- Trimming takes away blanks only, so the text stands padded in itself. -/
theorem padded_trim (text : List Char) : Padded (trim text) text := trim_between text

/-- **Added blanks** at the ends are trimmed away. -/
theorem Padded.trim_eq (h : Padded cs text) : trim text = trim cs := by
  obtain ⟨before, after, rfl, hbefore, hafter⟩ := h
  rw [trim, trim, List.append_assoc, List.dropWhile_append_of_pos hbefore, List.dropWhile_append]
  split
  · next hnil =>
    -- nothing but blanks: those behind go together with those in front
    rw [List.isEmpty_iff.mp hnil, List.dropWhile_eq_nil_iff.mpr hafter]
  · rw [List.reverse_append,
      List.dropWhile_append_of_pos fun c hc => hafter c (List.mem_reverse.mp hc)]

theorem dropWhile_isBlank_eq_self (h : ∀ c ∈ cs, isBlank c = false) :
    cs.dropWhile isBlank = cs := by
  cases cs with
  | nil => rfl
  | cons c cs => exact List.dropWhile_cons_of_neg (by rw [h c List.mem_cons_self]; decide)

theorem trim_eq_self (h : ∀ c ∈ cs, isBlank c = false) : trim cs = cs := by
  rw [trim, dropWhile_isBlank_eq_self h,
    dropWhile_isBlank_eq_self fun c hc => h c (List.mem_reverse.mp hc), List.reverse_reverse]

/-- Characters can be replaced before trimming or after it, if blanks stay blanks. -/
theorem trim_map {f : Char → Char} (h : ∀ c, isBlank (f c) = isBlank c) (cs : List Char) :
    trim (cs.map f) = (trim cs).map f := by
  have hf : isBlank ∘ f = isBlank := funext h
  rw [trim, trim, List.dropWhile_map, hf, ← List.map_reverse, List.dropWhile_map, hf,
    List.map_reverse]

/-! ## Letter case

Folding is a function, and being the same but for case is a relation. It is given by its three cases
and then shown to be equality after folding. -/

/-- Two characters are the same but for the case of a letter from A to Z. -/
inductive SameLetter : Char → Char → Prop where
  /-- the same character -/
  | same (c : Char) : SameLetter c c
  /-- a capital and its small letter -/
  | small {c d : Char} (first : 'A'.toNat ≤ c.toNat) (last : c.toNat ≤ 'Z'.toNat)
      (letter : d.toNat = c.toNat + 32) : SameLetter c d
  /-- a small letter and its capital -/
  | capital {c d : Char} (first : 'A'.toNat ≤ d.toNat) (last : d.toNat ≤ 'Z'.toNat)
      (letter : c.toNat = d.toNat + 32) : SameLetter c d

/-- Two texts are the same but for letter case. -/
def SameButCase (cs ds : List Char) : Prop := List.Forall₂ SameLetter cs ds

/-- Folding moves the capitals and nothing else. -/
theorem toNat_toLower (c : Char) :
    c.toLower.toNat =
      if 'A'.toNat ≤ c.toNat ∧ c.toNat ≤ 'Z'.toNat then c.toNat + 32 else c.toNat := by
  unfold Char.toLower
  split
  · next h =>
    have hfirst : 'A'.toNat ≤ c.toNat := h.1
    have hlast : c.toNat ≤ 'Z'.toNat := h.2
    rw [if_pos ⟨hfirst, hlast⟩]
    have hle : c.toNat ≤ 90 := hlast
    change (c.val + ('a'.val - 'A'.val)).toNat = c.toNat + 32
    rw [UInt32.toNat_add]
    exact Nat.mod_eq_of_lt (Nat.lt_of_le_of_lt (Nat.add_le_add_right hle 32) (by decide))
  · next h => exact (if_neg h).symm

/-- Characters are the same but for case exactly if they fold to the same one. Folding a capital
adds 32, which is where the small letter is. -/
theorem sameLetter_iff : SameLetter c d ↔ c.toLower = d.toLower := by
  have hA : 'A'.toNat = 65 := rfl
  have hZ : 'Z'.toNat = 90 := rfl
  rw [← Char.toNat_inj, toNat_toLower, toNat_toLower, hA, hZ]
  refine ⟨?_, ?_⟩
  · intro h
    cases h with
    | same => rfl
    | small first last letter =>
      rw [hA] at first
      rw [hZ] at last
      rw [if_pos ⟨first, last⟩, if_neg (by omega), letter]
    | capital first last letter =>
      rw [hA] at first
      rw [hZ] at last
      rw [if_neg (by omega), if_pos ⟨first, last⟩, letter]
  · intro h
    -- by which of the two is a capital; if both are or none is, they are the same character
    split at h
    · next hc =>
      split at h
      · obtain rfl := Char.toNat_inj.mp (Nat.add_right_cancel h)
        exact .same c
      · exact .small hc.1 hc.2 h.symm
    · split at h
      · next hd => exact .capital hd.1 hd.2 h
      · obtain rfl := Char.toNat_inj.mp h
        exact .same c

/-- Texts are the same but for letter case exactly if they fold to the same text. -/
theorem sameButCase_iff : SameButCase cs ds ↔ cs.map Char.toLower = ds.map Char.toLower := by
  have hletter : SameLetter = fun c d => c.toLower = d.toLower :=
    funext fun c => funext fun d => propext sameLetter_iff
  rw [SameButCase, hletter, ← List.forall₂_eq_eq_eq, List.forall₂_map_left_iff,
    List.forall₂_map_right_iff]

/-- No blank stands between the first capital and the last small letter. The others that do are no
letters, but no blanks either. -/
theorem isBlank_eq_false (first : 'A'.toNat ≤ c.toNat) (last : c.toNat ≤ 'z'.toNat) :
    isBlank c = false := by
  have hfirst : 65 ≤ c.toNat := first
  have hlast : c.toNat ≤ 122 := last
  simp only [isBlank, blankRanges, List.any_cons, List.any_nil, Bool.or_false, Bool.or_eq_false_iff,
    Bool.and_eq_false_iff, decide_eq_false_iff_not]
  omega

/-- Folding neither makes blanks nor takes them away. -/
theorem isBlank_toLower (c : Char) : isBlank c.toLower = isBlank c := by
  have hc := toNat_toLower c
  split at hc
  · next h =>
    have hfirst : 65 ≤ c.toNat := h.1
    have hlast : c.toNat ≤ 90 := h.2
    rw [isBlank_eq_false h.1 (Nat.le_trans hlast (by decide)),
      isBlank_eq_false (hc ▸ Nat.le_add_right_of_le h.1) (hc ▸ Nat.add_le_add_right hlast 32)]
  · rw [Char.toNat_inj.mp hc]

/-- Texts that are the same but for letter case are still so when both are trimmed. -/
theorem SameButCase.trim (h : SameButCase cs ds) : SameButCase (trim cs) (trim ds) := by
  rw [sameButCase_iff] at h ⊢
  rw [← trim_map isBlank_toLower, ← trim_map isBlank_toLower, h]

end Text

namespace CellWidth

variable {text : String} {v w : CellWidth}

/-! ## Names -/

/-- The text with its blanks taken away and its letters made small ones. -/
def folded (text : String) : List Char := (Text.trim text.toList).map Char.toLower

/-- A text spells a width: it is the name of the width, in either letter case, between two runs of
blanks. -/
def Spells (text : String) (w : CellWidth) : Prop :=
  ∃ name, Text.Padded name text.toList ∧ Text.SameButCase name w.name.toList

theorem map_toLower_name (w : CellWidth) : w.name.toList.map Char.toLower = w.name.toList := by
  rcases w with ⟨_ | _ | _ | _, _ | _⟩ <;> decide

theorem isBlank_eq_false_of_mem_name (w : CellWidth) :
    ∀ c ∈ w.name.toList, Text.isBlank c = false := by
  have hnone : w.name.toList.any Text.isBlank = false := by
    rcases w with ⟨_ | _ | _ | _, _ | _⟩ <;> rfl
  exact fun c hc => Bool.eq_false_iff.mpr (List.any_eq_false.mp hnone c hc)

/-- A text spells a width exactly if it folds to the name of it. -/
theorem spells_iff : Spells text w ↔ folded text = w.name.toList := by
  refine ⟨?_, fun h => ⟨_, Text.padded_trim _, ?_⟩⟩
  · rintro ⟨name, hpadded, hname⟩
    have htrim := Text.sameButCase_iff.mp hname.trim
    rw [Text.trim_eq_self (isBlank_eq_false_of_mem_name w), map_toLower_name] at htrim
    rw [folded, hpadded.trim_eq, htrim]
  · rw [Text.sameButCase_iff, map_toLower_name]
    exact h

theorem parse_eq (text : String) :
    parse text =
      match all.find? fun w => w.name.toList == folded text with
      | some w => .ok w
      | none => .error ⟨text⟩ := rfl

/-- A text spells at most one width. -/
theorem Spells.unique (h : Spells text v) (h' : Spells text w) : v = w :=
  name_injective (String.toList_inj.mp ((spells_iff.mp h).symm.trans (spells_iff.mp h')))

/-- **Reading a width** answers with the width that is spelled, or reports the text as it was given
if none is. -/
theorem parse_cases (text : String) :
    (∃ w, Spells text w ∧ parse text = .ok w) ∨
      ((∀ w, ¬ Spells text w) ∧ parse text = .error ⟨text⟩) := by
  cases hfind : all.find? fun w => w.name.toList == folded text with
  | some w =>
    have hname : w.name.toList = folded text := by simpa using List.find?_some hfind
    exact Or.inl ⟨w, spells_iff.mpr hname.symm, by rw [parse_eq, hfind]⟩
  | none =>
    refine Or.inr ⟨fun w hw => ?_, by rw [parse_eq, hfind]⟩
    have hnot := List.find?_eq_none.mp hfind w (mem_all w)
    exact hnot (by rw [spells_iff.mp hw, beq_self_eq_true])

theorem parse_eq_ok_iff_spells : parse text = .ok w ↔ Spells text w := by
  obtain ⟨v, hv, hparse⟩ | ⟨hnot, hparse⟩ := parse_cases text
  · rw [hparse]
    refine ⟨?_, fun hw => congrArg _ (hv.unique hw)⟩
    intro h
    cases h
    exact hv
  · rw [hparse]
    refine ⟨?_, fun hw => absurd hw (hnot w)⟩
    intro h
    cases h

theorem parse_eq_error_iff {e : UnknownWidth} :
    parse text = .error e ↔ (∀ w, ¬ Spells text w) ∧ e = ⟨text⟩ := by
  obtain ⟨v, hv, hparse⟩ | ⟨hnot, hparse⟩ := parse_cases text
  · rw [hparse]
    refine ⟨?_, fun h => absurd hv (h.1 v)⟩
    intro h
    cases h
  · rw [hparse, Except.error.injEq, eq_comm]
    exact ⟨fun h => ⟨hnot, h⟩, And.right⟩

/-- Texts that fold alike are read alike, but for the report, which quotes each as it was given. -/
theorem parse_congr {other : String} (h : folded other = folded text) :
    parse other = (parse text).mapError fun _ => ⟨other⟩ := by
  obtain ⟨w, hw, hparse⟩ | ⟨hnot, hparse⟩ := parse_cases text
  · rw [hparse]
    exact parse_eq_ok_iff_spells.mpr (spells_iff.mpr (h.trans (spells_iff.mp hw)))
  · rw [hparse]
    refine parse_eq_error_iff.mpr ⟨fun w hw => hnot w ?_, rfl⟩
    exact spells_iff.mpr (h.symm.trans (spells_iff.mp hw))

/-- **Blanks and letter case** do not matter. -/
theorem folded_congr {other : String}
    (h : Text.Padded text.toList other.toList ∨ Text.SameButCase text.toList other.toList) :
    folded other = folded text := by
  rcases h with hpadded | hcase
  · rw [folded, folded, hpadded.trim_eq]
  · exact (Text.sameButCase_iff.mp hcase.trim).symm

/-! ## Machines of a width that has been read

Signed widths can be read, but there is no machine for them. Which it is can be seen from one letter
of the text. -/

theorem toLower_eq_u_iff {c : Char} : c.toLower = 'u' ↔ c = 'u' ∨ c = 'U' := by
  have hu : 'u'.toLower = 'u' := by decide
  refine ⟨fun h => ?_, ?_⟩
  · cases Text.sameLetter_iff.mpr (h.trans hu.symm) with
    | same => exact Or.inl rfl
    | small _ _ letter =>
      have hU : 'U'.toNat + 32 = c.toNat + 32 := letter
      exact Or.inr (Char.toNat_inj.mp (Nat.add_right_cancel hU.symm))
    | capital _ last _ => exact absurd last (by decide)
  · rintro (rfl | rfl)
    · exact hu
    · decide

/-- The name of a width begins with the letter of its sign. -/
theorem head?_name (w : CellWidth) :
    w.name.toList.head? = some (if w.signed then 'i' else 'u') := by
  rcases w with ⟨_ | _ | _ | _, _ | _⟩ <;> decide

/-- The width that is spelled is unsigned exactly if the trimmed text begins with the letter U, in
either case. So the sign can be told without reading the number of bits. -/
theorem Spells.signed_eq_false_iff (h : Spells text w) :
    w.signed = false ↔ (Text.trim text.toList).head? = some 'u' ∨
      (Text.trim text.toList).head? = some 'U' := by
  have hhead := w.head?_name
  rw [← spells_iff.mp h, folded, List.head?_map] at hhead
  obtain ⟨c, hc, hletter⟩ := Option.map_eq_some_iff.mp hhead
  rw [hc, Option.some.injEq, Option.some.injEq, ← toLower_eq_u_iff, hletter]
  cases w.signed <;> simp

/-- **Texts that name a width.** A text is read as a width exactly if it spells this width, and it
spells one width at most. Any other text is reported, and the report quotes it as it was given. So
names read back, and neither blanks at the ends nor the case of letters make a difference.

A machine can be built of the width that is read exactly if the text, when it is trimmed, begins
with the letter U. The name of the width of this machine is then the text with its blanks taken away
and its letters made small ones. -/
theorem parse_reads_spelled (text : String) :
    (∀ w, parse text = .ok w ↔ Spells text w) ∧
    (∀ v w, Spells text v → Spells text w → v = w) ∧
    (∀ e, parse text = .error e ↔ (∀ w, ¬ Spells text w) ∧ e = ⟨text⟩) ∧
    (∀ e, parse text = .error e →
      e.message =
        "Unknown cell width '" ++ text ++ "' (expected one of u8, u16, u32, u64)") ∧
    (∀ w : CellWidth, parse w.name = .ok w) ∧
    (∀ other : String,
      Text.Padded text.toList other.toList ∨ Text.SameButCase text.toList other.toList →
        parse other = (parse text).mapError fun _ => ⟨other⟩) ∧
    ∀ w, parse text = .ok w → ∀ (memoryPointer : Addr) (instructionPointer : Nat),
      ((∃ m, Machine.ofSettings ⟨w, memoryPointer, instructionPointer⟩ = .ok m) ↔
        (Text.trim text.toList).head? = some 'u' ∨ (Text.trim text.toList).head? = some 'U') ∧
      ∀ m, Machine.ofSettings ⟨w, memoryPointer, instructionPointer⟩ = .ok m →
        m.width = w ∧ m.width.name.toList = folded text := by
  refine ⟨fun w => parse_eq_ok_iff_spells, fun v w => Spells.unique, fun e => parse_eq_error_iff,
    fun e he => ?_, parse_name, fun other h => parse_congr (folded_congr h),
    fun w hw mp ip => ⟨?_, fun m hm => ?_⟩⟩
  · obtain ⟨-, rfl⟩ := parse_eq_error_iff.mp he
    rfl
  · rw [Machine.exists_ofSettings_eq_ok_iff]
    exact (parse_eq_ok_iff_spells.mp hw).signed_eq_false_iff
  · obtain ⟨hwidth, -⟩ := Machine.ofSettings_eq_ok_iff.mp hm
    obtain rfl : w = m.width := hwidth
    exact ⟨rfl, (spells_iff.mp (parse_eq_ok_iff_spells.mp hw)).symm⟩

/-- The space of ideographic script is a blank as well. -/
example : parse "\u3000I32\n" = .ok ⟨.word, true⟩ := by rfl

end CellWidth

end TapeMachine
