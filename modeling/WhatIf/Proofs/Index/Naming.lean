import WhatIf.Index.Hypothetical
import Mathlib.Data.List.Basic
import Mathlib.Data.Nat.Find
/-!
# Index — the names of hypothetical indexes

An index is shown under its full name, cut to the bytes an identifier may have.
The place of the cut is searched for backwards and found within three steps, behind
the longest beginning that fits (`Text.lastPart_eq`, `Text.IsCut`). The identifier of
the index stands in front, between brackets that hold nothing but digits, and is too
short for any cut to reach it. So two indexes are never shown under one name
(`displayName_isCut_and_ne`).
-/

namespace WhatIf

namespace Text

variable {room : Nat} {cs p : List Char} {c : Char} {s : String}

/-- The bytes that characters take. -/
def bytes : List Char → Nat
  | [] => 0
  | c :: cs => c.utf8Size + bytes cs

@[simp] theorem bytes_nil : bytes [] = 0 := rfl

@[simp] theorem bytes_cons : bytes (c :: cs) = c.utf8Size + bytes cs := rfl

theorem bytes_eq_length (h : ∀ c ∈ cs, c.utf8Size = 1) : bytes cs = cs.length := by
  induction cs with
  | nil => rfl
  | cons c cs ih =>
    have hrest := ih fun d hd => h d (List.mem_cons_of_mem c hd)
    rw [bytes_cons, h c List.mem_cons_self, hrest, List.length_cons, Nat.add_comm]

theorem utf8ByteSize_ofList (cs : List Char) : (String.ofList cs).utf8ByteSize = bytes cs := by
  induction cs with
  | nil => simp
  | cons c cs ih =>
    have hcons : String.ofList (c :: cs) = String.singleton c ++ String.ofList cs := by
      rw [String.singleton_eq_ofList, ← String.ofList_append]
      rfl
    rw [hcons, String.utf8ByteSize_append, String.utf8ByteSize_singleton, ih, bytes_cons]

theorem bytes_toList (s : String) : bytes s.toList = s.utf8ByteSize := by
  rw [← utf8ByteSize_ofList, String.ofList_toList]

/-! ## Cuts -/

/-- **A text cut to a number of bytes**: the longest of its beginnings that takes
no more. It is the text itself where that fits, and where it does not, at most
three of the bytes are left over. -/
structure IsCut (room : Nat) (whole s : String) : Prop where
  isPrefix : ∃ rest, whole = s ++ rest
  fits : s.utf8ByteSize ≤ room
  longest : ∀ p rest, whole = p ++ rest → p.utf8ByteSize ≤ room → ∃ more, s = p ++ more
  eq_whole : whole.utf8ByteSize ≤ room → s = whole
  room_lt : room < whole.utf8ByteSize → room < s.utf8ByteSize + 4

theorem fitting_isPrefix (room : Nat) (cs : List Char) : fitting room cs <+: cs := by
  induction cs generalizing room with
  | nil => simp [fitting]
  | cons c cs ih =>
    by_cases hfits : c.utf8Size ≤ room
    · simpa [fitting, hfits] using ih (room - c.utf8Size)
    · simp [fitting, hfits]

theorem bytes_fitting_le (room : Nat) (cs : List Char) : bytes (fitting room cs) ≤ room := by
  induction cs generalizing room with
  | nil => simp [fitting]
  | cons c cs ih =>
    by_cases hfits : c.utf8Size ≤ room
    · have hrest := ih (room - c.utf8Size)
      simp only [fitting, if_pos hfits, bytes_cons]
      omega
    · simp [fitting, hfits]

/-- Every beginning that fits is part of what is kept. -/
theorem isPrefix_fitting (hp : p <+: cs) (hfits : bytes p ≤ room) : p <+: fitting room cs := by
  induction cs generalizing room p with
  | nil => rwa [fitting]
  | cons c cs ih =>
    cases p with
    | nil => exact List.nil_prefix
    | cons d p =>
      obtain ⟨rfl, htail⟩ := List.cons_prefix_cons.1 hp
      rw [bytes_cons] at hfits
      have hfirst : d.utf8Size ≤ room := by omega
      have hrest : p <+: fitting (room - d.utf8Size) cs := ih htail (by omega)
      rw [fitting, if_pos hfirst]
      exact List.cons_prefix_cons.2 ⟨rfl, hrest⟩

theorem fitting_eq_self (h : bytes cs ≤ room) : fitting room cs = cs :=
  (fitting_isPrefix room cs).eq_of_length_le (isPrefix_fitting (List.prefix_refl cs) h).length_le

/-- What is left out did not fit, and its first character takes four bytes at
most. -/
theorem room_lt_fitting (h : room < bytes cs) : room < bytes (fitting room cs) + 4 := by
  induction cs generalizing room with
  | nil => simp at h
  | cons c cs ih =>
    rw [bytes_cons] at h
    by_cases hfits : c.utf8Size ≤ room
    · have hrest := ih (show room - c.utf8Size < bytes cs by omega)
      simp only [fitting, if_pos hfits, bytes_cons]
      omega
    · have hfour := c.utf8Size_le_four
      omega

/-- Characters can be parted behind each of their beginnings, and nowhere else. -/
theorem partsAt_iff {n : Nat} : partsAt cs n = true ↔ ∃ p, p <+: cs ∧ bytes p = n := by
  induction cs generalizing n with
  | nil =>
    cases n with
    | zero => exact iff_of_true rfl ⟨[], List.nil_prefix, rfl⟩
    | succ n =>
      refine iff_of_false Bool.false_ne_true fun ⟨p, hp, hbytes⟩ => ?_
      rw [List.prefix_nil.1 hp] at hbytes
      cases hbytes
  | cons c cs ih =>
    cases n with
    | zero => exact iff_of_true rfl ⟨[], List.nil_prefix, rfl⟩
    | succ n =>
      rw [partsAt, Bool.and_eq_true, decide_eq_true_eq, ih]
      constructor
      · rintro ⟨hfits, p, hp, hbytes⟩
        exact ⟨c :: p, List.cons_prefix_cons.2 ⟨rfl, hp⟩, by rw [bytes_cons]; omega⟩
      · rintro ⟨_ | ⟨d, p⟩, hp, hbytes⟩
        · cases hbytes
        · obtain ⟨rfl, htail⟩ := List.cons_prefix_cons.1 hp
          rw [bytes_cons] at hbytes
          exact ⟨by omega, p, htail, by omega⟩

theorem lastPart_eq_findGreatest (cs : List Char) (room : Nat) :
    lastPart cs room = Nat.findGreatest (fun n => partsAt cs n = true) room := by
  induction room with
  | zero => rfl
  | succ n ih => rw [lastPart, Nat.findGreatest_succ, ih]

theorem bytes_mono {q : List Char} (h : p <+: q) : bytes p ≤ bytes q := by
  induction p generalizing q with
  | nil => exact Nat.zero_le _
  | cons c p ih =>
    cases q with
    | nil => cases List.prefix_nil.1 h
    | cons d q =>
      obtain ⟨rfl, htail⟩ := List.cons_prefix_cons.1 h
      exact Nat.add_le_add_left (ih htail) _

/-- **The search ends behind the characters that fit.** -/
theorem lastPart_eq (cs : List Char) (room : Nat) : lastPart cs room = bytes (fitting room cs) := by
  rw [lastPart_eq_findGreatest, Nat.findGreatest_eq_iff]
  refine ⟨bytes_fitting_le room cs, fun _ => partsAt_iff.2 ⟨_, fitting_isPrefix room cs, rfl⟩, ?_⟩
  intro n hlt hle hparts
  obtain ⟨p, hp, rfl⟩ := partsAt_iff.1 hparts
  exact absurd (bytes_mono (isPrefix_fitting hp hle)) (Nat.not_le.2 hlt)

/-- Where not all characters fit, the search goes back by three bytes at most. -/
theorem le_lastPart_add_three (h : room < bytes cs) : room ≤ lastPart cs room + 3 := by
  rw [lastPart_eq]
  exact Nat.le_of_lt_succ (room_lt_fitting h)

/-- What fits into the bytes that it takes is the same. -/
theorem fitting_lastPart (cs : List Char) (room : Nat) :
    fitting (lastPart cs room) cs = fitting room cs := by
  rw [lastPart_eq]
  induction cs generalizing room with
  | nil => rfl
  | cons c cs ih =>
    by_cases hfits : c.utf8Size ≤ room
    · have hfitting : fitting room (c :: cs) = c :: fitting (room - c.utf8Size) cs := if_pos hfits
      rw [hfitting, bytes_cons, fitting, if_pos (Nat.le_add_right ..), Nat.add_sub_cancel_left, ih]
    · have hfitting : fitting room (c :: cs) = [] := if_neg hfits
      rw [hfitting, bytes_nil, fitting, if_neg (Nat.not_le.2 (Char.utf8Size_pos c))]

/-- **A cut keeps the characters that fit.** -/
theorem cut_eq (room : Nat) (s : String) : cut room s = String.ofList (fitting room s.toList) := by
  rw [cut, fitting_lastPart]
  split
  · rename_i hfits
    rw [fitting_eq_self (by rwa [bytes_toList]), String.ofList_toList]
  · rfl

/-- **What is kept of a text is a cut of it.** -/
theorem isCut_cut (room : Nat) (s : String) : IsCut room s (cut room s) := by
  have hsize : (cut room s).utf8ByteSize = bytes (fitting room s.toList) := by
    rw [cut_eq, utf8ByteSize_ofList]
  have hlongest : ∀ p rest, s = p ++ rest → p.utf8ByteSize ≤ room →
      ∃ more, cut room s = p ++ more := by
    intro p rest hs hp
    have hprefix : p.toList <+: s.toList := ⟨rest.toList, by rw [hs, String.toList_append]⟩
    have hroom : bytes p.toList ≤ room := by rwa [bytes_toList]
    obtain ⟨more, hmore⟩ := isPrefix_fitting hprefix hroom
    refine ⟨String.ofList more, ?_⟩
    rw [cut_eq, ← hmore, String.ofList_append, String.ofList_toList]
  obtain ⟨rest, hrest⟩ := fitting_isPrefix room s.toList
  have hs : s = cut room s ++ String.ofList rest := by
    rw [cut_eq, ← String.ofList_append, hrest, String.ofList_toList]
  refine ⟨⟨_, hs⟩, ?_, hlongest, fun hfits => if_pos hfits, fun hlt => ?_⟩
  · rw [hsize]
    exact bytes_fitting_le room s.toList
  · rw [hsize, ← lastPart_eq]
    exact Nat.lt_succ_of_le (le_lastPart_add_three (by rwa [bytes_toList]))

end Text

/-! ## Names -/

namespace Oid

variable {a b : Oid} {s t : List Char}

theorem toList_text (a : Oid) : a.text.toList = Nat.toDigits 10 a.word.toNat := by
  rw [text, Nat.toString_eq_repr, Nat.toList_repr]

theorem isDigit_of_mem_text {c : Char} (hc : c ∈ a.text.toList) : c.isDigit = true := by
  rw [toList_text] at hc
  exact Nat.isDigit_of_mem_toDigits (by decide) (by decide) hc

theorem utf8Size_of_isDigit {c : Char} (hc : c.isDigit = true) : c.utf8Size = 1 := by
  rw [Char.isDigit, Bool.and_eq_true, decide_eq_true_eq, decide_eq_true_eq] at hc
  refine Char.utf8Size_eq_one_iff.2 (UInt32.le_iff_toNat_le.2 ?_)
  have hnine := UInt32.le_iff_toNat_le.1 hc.2
  have h57 : '9'.val.toNat = 57 := rfl
  have h127 : (127 : UInt32).toNat = 127 := rfl
  omega

/-- The text of an identifier takes at most ten bytes. -/
theorem utf8ByteSize_text_le (a : Oid) : a.text.utf8ByteSize ≤ 10 := by
  have hone : ∀ c ∈ a.text.toList, c.utf8Size = 1 := fun c hc =>
    utf8Size_of_isDigit (isDigit_of_mem_text hc)
  have hlength : (Nat.toDigits 10 a.word.toNat).length ≤ 10 :=
    (Nat.length_toDigits_le_iff (by decide) (by decide)).2 (by have := a.word.toNat_lt; omega)
  rw [← Text.bytes_toList, Text.bytes_eq_length hone, toList_text]
  exact hlength

theorem text_injective (h : a.text = b.text) : a = b := by
  have hdigits := congrArg String.toList h
  rw [toList_text, toList_text] at hdigits
  have hword : a.word.toNat = b.word.toNat := by
    calc a.word.toNat = Nat.ofDigitChars 10 (Nat.toDigits 10 a.word.toNat) 0 :=
          Nat.ofDigitChars_ten_toDigits.symm
      _ = Nat.ofDigitChars 10 (Nat.toDigits 10 b.word.toNat) 0 := by rw [hdigits]
      _ = b.word.toNat := Nat.ofDigitChars_ten_toDigits
  cases a
  cases b
  exact congrArg Oid.mk (UInt32.toNat_inj.1 hword)

end Oid

namespace HypotheticalIndex

variable {oid oid' : Oid} {m m' : AccessMethod} {relation relation' : String}
variable {columns columns' : List String}

/-- What a name begins with. -/
def tag (oid : Oid) : String := "<" ++ oid.text ++ ">"

theorem fullName_eq : ∃ rest, fullName oid m relation columns = tag oid ++ rest := by
  refine ⟨m.name ++ "_" ++ relation ++ String.join (columns.map fun c => "_" ++ c), ?_⟩
  simp only [fullName, tag, String.append_assoc]

/-- No cut reaches into it. -/
theorem utf8ByteSize_tag_le (oid : Oid) : (tag oid).utf8ByteSize ≤ nameRoom := by
  have htext := oid.utf8ByteSize_text_le
  have hbracket : "<".utf8ByteSize = 1 ∧ ">".utf8ByteSize = 1 := ⟨rfl, rfl⟩
  have hroom : nameRoom = 63 := rfl
  rw [tag, String.utf8ByteSize_append, String.utf8ByteSize_append]
  omega

/-- The digits end at the bracket, so what begins with two of these begins with
one. -/
theorem eq_of_tag {s t : String} (h : tag oid ++ s = tag oid' ++ t) : oid = oid' := by
  have hsplit : ∀ (oid : Oid) (s : String),
      (tag oid ++ s).toList = '<' :: (oid.text.toList ++ '>' :: s.toList) := by
    intro oid s
    simp [tag]
  have hdigits : ∀ (oid : Oid) (s : String),
      (oid.text.toList ++ '>' :: s.toList).takeWhile Char.isDigit = oid.text.toList := by
    intro oid s
    rw [List.takeWhile_append_of_pos fun c hc => Oid.isDigit_of_mem_text hc]
    simp
  have hlists := congrArg String.toList h
  rw [hsplit, hsplit] at hlists
  have hrest := (List.cons.inj hlists).2
  have htexts := congrArg (List.takeWhile Char.isDigit) hrest
  rw [hdigits, hdigits] at htexts
  exact Oid.text_injective (String.toList_inj.1 htexts)

/-- **Display names are cut, and unique.** A display name is the full name, cut to
what an identifier may have; and whatever relations and columns they are on, two
indexes of different identifiers have different names. -/
theorem displayName_isCut_and_ne :
    (∀ (oid : Oid) (m : AccessMethod) (relation : String) (columns : List String),
      Text.IsCut nameRoom (fullName oid m relation columns)
        (displayName oid m relation columns)) ∧
    ∀ (oid oid' : Oid) (m m' : AccessMethod) (relation relation' : String)
      (columns columns' : List String), oid ≠ oid' →
        displayName oid m relation columns ≠ displayName oid' m' relation' columns' := by
  have hcut : ∀ (oid : Oid) (m : AccessMethod) (relation : String) (columns : List String),
      Text.IsCut nameRoom (fullName oid m relation columns)
        (displayName oid m relation columns) := fun _ _ _ _ => Text.isCut_cut nameRoom _
  have htag : ∀ (oid : Oid) (m : AccessMethod) (relation : String) (columns : List String),
      ∃ more, displayName oid m relation columns = tag oid ++ more := by
    intro oid m relation columns
    obtain ⟨rest, hrest⟩ := @fullName_eq oid m relation columns
    exact (hcut oid m relation columns).longest _ rest hrest (utf8ByteSize_tag_le oid)
  refine ⟨hcut, fun oid oid' m m' relation relation' columns columns' hne hsame => hne ?_⟩
  obtain ⟨more, hmore⟩ := htag oid m relation columns
  obtain ⟨more', hmore'⟩ := htag oid' m' relation' columns'
  rw [hmore, hmore'] at hsame
  exact eq_of_tag hsame

theorem displayName_isCut_and_ne_orders :
    displayName ⟨13543⟩ .btree "orders" ["id"] = "<13543>btree_orders_id" ∧
      displayName ⟨13543⟩ .btree "orders" ["id"] ≠ displayName ⟨1354⟩ .btree "3>orders" [] :=
  ⟨rfl, displayName_isCut_and_ne.2 _ _ _ _ _ _ _ _ (by decide)⟩

end HypotheticalIndex

end WhatIf
