import WhatIf.Datum
import Mathlib.Algebra.Group.Nat.Even
import Mathlib.Data.List.Basic
/-!
# Text — reading the literals of a statement

SQL is read character by character. Outside a literal a quote opens one; inside,
two quotes stand for one and a quote that no other follows closes the literal.
What a quote inside a literal means is therefore known one character later, and
the reader has a state of its own for the time in between (`Reader.closing`).

Each quote takes the reader from one side to the other (`isInside_read_iff`), so a
text with an even number of them leaves it on the side it came from: every value
is written as such a text. Which of its characters are read as part of a literal
depends on the side. From outside, the quotes of a value enclose it
(`read_quote_outside`); from inside, they expose it, unless it is made of quotes
(`encloses_inside_iff`).
-/

namespace WhatIf

namespace Sql

/-- What a text is made of: characters outside literals, and literals with the
quotes inside them undone. -/
inductive Token where
  | plain (c : Char)
  | literal (content : List Char)

/-- A reader in the middle of a text, with what it has found so far. -/
inductive Reader where
  /-- Outside a literal. -/
  | outside (found : List Token)
  /-- Inside a literal of which it has read the given content. -/
  | inside (found : List Token) (content : List Char)
  /-- Behind a quote that closes the literal unless a second one follows. -/
  | closing (found : List Token) (content : List Char)

namespace Reader

/-- Read a character. -/
def step : Reader → Char → Reader
  | outside found, c => if c = '\x27' then inside found [] else outside (found ++ [.plain c])
  | inside found content, c =>
    if c = '\x27' then closing found content else inside found (content ++ [c])
  | closing found content, c =>
    if c = '\x27' then inside found (content ++ ['\x27'])
    else outside (found ++ [.literal content, .plain c])

/-- Read a text. -/
def read (r : Reader) (s : String) : Reader := s.toList.foldl step r

/-- What has been found. -/
def found : Reader → List Token
  | outside found | inside found _ | closing found _ => found

/-- What has been read of the literal that is not closed yet. -/
def content? : Reader → Option (List Char)
  | outside _ => none
  | inside _ content | closing _ content => some content

/-- Whether a quote would close or suspend a literal. -/
def isInside : Reader → Bool
  | inside _ _ => true
  | outside _ | closing _ _ => false

end Reader

/-- Read a text from its beginning. -/
def read (s : String) : Reader := (Reader.outside []).read s

/-- A text that holds no quote. -/
def QuoteFree (s : String) : Prop := '\x27' ∉ s.toList

instance (s : String) : Decidable (QuoteFree s) := inferInstanceAs (Decidable ('\x27' ∉ s.toList))

/-- A text whose quotes are even in number. -/
def Balanced (s : String) : Prop := Even (s.toList.count '\x27')

/-- A text whose quotes are even in number and which does not end with one of
them. -/
structure Settled (s : String) : Prop where
  balanced : Balanced s
  settles : ∃ cs c, s.toList = cs ++ [c] ∧ c ≠ '\x27'

/-- Characters with each quote written twice. -/
def doubledChars (cs : List Char) : List Char :=
  cs.flatMap fun c => if c = '\x27' then ['\x27', '\x27'] else [c]

/-- A text with each quote written twice. -/
def doubled (s : String) : String := String.ofList (doubledChars s.toList)

/-- **A constant that is enclosed where it is written.** Behind `front` stands its
opening quote; what is read between that quote and the closing one is added to
the content of one literal, and nothing is found outside of it. -/
def Encloses (front s : String) : Prop :=
  ∃ content,
    (read (front ++ "\x27")).content? = some content ∧
    (read (front ++ "\x27" ++ doubled s)).content? = some (content ++ s.toList) ∧
    (read (front ++ "\x27" ++ doubled s)).found = (read (front ++ "\x27")).found

theorem quote_eq (s : String) : Datum.quote s = "\x27" ++ doubled s ++ "\x27" := by
  refine String.toList_inj.1 ?_
  simp [Datum.quote, doubled, doubledChars]

@[simp] theorem doubledChars_quote_cons (cs : List Char) :
    doubledChars ('\x27' :: cs) = '\x27' :: '\x27' :: doubledChars cs := by
  simp [doubledChars]

theorem doubledChars_cons {c : Char} (hc : c ≠ '\x27') (cs : List Char) :
    doubledChars (c :: cs) = c :: doubledChars cs := by
  simp [doubledChars, hc]

/-! ## Texts without quotes, and with an even number of them -/

section Quotes

variable {s t : String} {parts : List String}

@[simp] theorem quoteFree_append : QuoteFree (s ++ t) ↔ QuoteFree s ∧ QuoteFree t := by
  simp [QuoteFree]

@[simp] theorem quoteFree_ofList {cs : List Char} : QuoteFree (String.ofList cs) ↔ '\x27' ∉ cs := by
  simp [QuoteFree]

theorem QuoteFree.balanced (h : QuoteFree s) : Balanced s := by
  rw [Balanced, List.count_eq_zero_of_not_mem h]
  exact Even.zero

theorem Balanced.append (hs : Balanced s) (ht : Balanced t) : Balanced (s ++ t) := by
  rw [Balanced, String.toList_append, List.count_append]
  exact Even.add hs ht

theorem Balanced.enclosed (h : Balanced s) : Balanced ("\x27" ++ s ++ "\x27") := by
  have hcount : ("\x27" ++ s ++ "\x27").toList.count '\x27' = s.toList.count '\x27' + 2 := by
    simp
  rw [Balanced, hcount]
  exact h.add (by decide)

theorem QuoteFree.settled (h : QuoteFree s) (hs : s ≠ "") : Settled s := by
  have hne : s.toList ≠ [] := fun hnil => hs (String.toList_eq_nil_iff.1 hnil)
  refine ⟨h.balanced, _, _, (List.dropLast_append_getLast hne).symm, fun hlast => h ?_⟩
  rw [← hlast]
  exact List.getLast_mem hne

theorem Balanced.append_settled (hs : Balanced s) (ht : Settled t) : Settled (s ++ t) := by
  obtain ⟨hbalanced, cs, c, hcs, hc⟩ := ht
  refine ⟨hs.append hbalanced, s.toList ++ cs, c, ?_, hc⟩
  rw [String.toList_append, hcs, List.append_assoc]

theorem balanced_join (h : ∀ s ∈ parts, Balanced s) : Balanced (String.join parts) := by
  induction parts with
  | nil => simp [Balanced]
  | cons s parts ih =>
    rw [String.join_cons]
    exact (h s List.mem_cons_self).append (ih fun t ht => h t (List.mem_cons_of_mem s ht))

theorem quoteFree_repr (n : Nat) : QuoteFree n.repr := by
  intro hmem
  rw [Nat.toList_repr] at hmem
  have hdigit := Nat.isDigit_of_mem_toDigits (by decide) (by decide) hmem
  exact absurd hdigit (by decide)

end Quotes

/-! ## Reading -/

namespace Reader

variable {r : Reader} {found : List Token} {content : List Char} {c : Char} {s t : String}

theorem read_append : r.read (s ++ t) = (r.read s).read t := by
  simp [read]

theorem isInside_step_quote (r : Reader) : (r.step '\x27').isInside = !r.isInside := by
  cases r <;> simp [step, isInside]

theorem isInside_step (hc : c ≠ '\x27') (r : Reader) : (r.step c).isInside = r.isInside := by
  cases r <;> simp [step, isInside, hc]

/-- Each quote changes the side, and nothing else does. -/
theorem isInside_foldl_iff (cs : List Char) (r : Reader) :
    (cs.foldl step r).isInside = r.isInside ↔ Even (cs.count '\x27') := by
  induction cs generalizing r with
  | nil => simp
  | cons c cs ih =>
    have hrest := ih (r.step c)
    rw [List.foldl_cons]
    by_cases hc : c = '\x27'
    · subst hc
      rw [isInside_step_quote] at hrest
      rw [List.count_cons_self, Nat.even_add_one, ← hrest]
      cases r.isInside <;> simp
    · rwa [isInside_step hc, ← List.count_cons_of_ne hc] at hrest

theorem isInside_read (h : Balanced s) : (r.read s).isInside = r.isInside :=
  (isInside_foldl_iff s.toList r).2 h

theorem isInside_iff : r.isInside = true ↔ ∃ found content, r = inside found content := by
  cases r <;> simp [isInside]

/-- A character that is no quote settles that the literal is closed. -/
theorem step_of_not_isInside (h : r.isInside = false) (hc : c ≠ '\x27') :
    ∃ found, r.step c = outside found := by
  cases r with
  | outside found => exact ⟨_, if_neg hc⟩
  | inside found content => exact absurd h (by simp [isInside])
  | closing found content => exact ⟨_, if_neg hc⟩

theorem read_outside (h : r.isInside = false) (hs : Settled s) :
    ∃ found, r.read s = outside found := by
  obtain ⟨hbalanced, cs, c, hcs, hc⟩ := hs
  have hcount : Even (cs.count '\x27') := by
    rwa [Balanced, hcs, List.count_append, List.count_singleton, if_neg (by simpa using hc),
      Nat.add_zero] at hbalanced
  have hbefore : (cs.foldl step r).isInside = false :=
    ((isInside_foldl_iff cs r).2 hcount).trans h
  rw [read, hcs, List.foldl_append]
  exact step_of_not_isInside hbefore hc

/-- Inside a literal the doubled quotes are undone. -/
theorem foldl_doubled_inside (cs content : List Char) :
    (doubledChars cs).foldl step (inside found content) = inside found (content ++ cs) := by
  induction cs generalizing content with
  | nil => simp [doubledChars]
  | cons c cs ih =>
    by_cases hc : c = '\x27'
    · simp [hc, step, ih]
    · simp [doubledChars_cons hc, hc, step, ih]

/-- What is found stays found. -/
theorem length_found_le (cs : List Char) (r : Reader) :
    r.found.length ≤ (cs.foldl step r).found.length := by
  induction cs generalizing r with
  | nil => simp
  | cons c cs ih =>
    have hstep : r.found.length ≤ (r.step c).found.length := by
      cases r <;> by_cases hc : c = '\x27' <;> simp [step, hc, Reader.found]
    exact Nat.le_trans hstep (ih (r.step c))

/-- Behind a quote that may close the literal, pairs of quotes go on with it. -/
theorem foldl_doubled_closing {cs : List Char} (h : ∀ c ∈ cs, c = '\x27') (content : List Char) :
    (doubledChars cs).foldl step (closing found content) = closing found (content ++ cs) := by
  induction cs generalizing content with
  | nil => simp [doubledChars]
  | cons c cs ih =>
    have hrest := ih (fun d hd => h d (List.mem_cons_of_mem c hd)) (content ++ ['\x27'])
    rw [h c List.mem_cons_self]
    simpa [step] using hrest

/-- Behind a quote that may close the literal, every other character closes it. -/
theorem length_found_lt {cs : List Char} (h : ∃ c ∈ cs, c ≠ '\x27') (content : List Char) :
    found.length < ((doubledChars cs).foldl step (closing found content)).found.length := by
  induction cs generalizing content with
  | nil => simp at h
  | cons c cs ih =>
    by_cases hc : c = '\x27'
    · subst hc
      obtain ⟨d, hmem, hd⟩ := h
      have hrest : ∃ c ∈ cs, c ≠ '\x27' := ⟨d, (List.mem_cons.1 hmem).resolve_left hd, hd⟩
      simpa [step] using ih hrest (content ++ ['\x27'])
    · have hgrows := length_found_le (doubledChars cs)
        (outside (found ++ [.literal content, .plain c]))
      rw [doubledChars_cons hc, List.foldl_cons, step, if_neg hc]
      exact Nat.lt_of_lt_of_le (by simp [Reader.found]) hgrows

end Reader

/-! ## Constants -/

section Constants

variable {front s : String} {found : List Token} {content : List Char}

theorem read_append : read (front ++ s) = (read front).read s := Reader.read_append

theorem read_opened_outside (h : read front = .outside found) :
    read (front ++ "\x27") = .inside found [] := by
  rw [read_append, h]
  rfl

theorem read_body_outside (h : read front = .outside found) :
    read (front ++ "\x27" ++ doubled s) = .inside found s.toList := by
  rw [read_append, read_opened_outside h, Reader.read, doubled, String.toList_ofList,
    Reader.foldl_doubled_inside, List.nil_append]

/-- **From outside, a quoted text is one literal whose content is the text**, once
what follows is known to be no quote. -/
theorem read_quote_outside (h : read front = .outside found) {c : Char} (hc : c ≠ '\x27') :
    (read (front ++ Datum.quote s)).step c =
      .outside (found ++ [.literal s.toList, .plain c]) := by
  have hclosing : read (front ++ Datum.quote s) = .closing found s.toList := by
    rw [quote_eq, ← String.append_assoc, ← String.append_assoc, read_append, read_body_outside h]
    rfl
  rw [hclosing, Reader.step, if_neg hc]

theorem encloses_outside (h : read front = .outside found) : Encloses front s := by
  refine ⟨[], ?_, ?_, ?_⟩
  · rw [read_opened_outside h, Reader.content?]
  · rw [read_body_outside h, Reader.content?, List.nil_append]
  · rw [read_body_outside h, read_opened_outside h, Reader.found, Reader.found]

/-- **From inside, the opening quote of a text closes the literal**, so the text is
enclosed only if there is nothing but quotes in it. -/
theorem encloses_inside_iff (h : read front = .inside found content) :
    Encloses front s ↔ ∀ c ∈ s.toList, c = '\x27' := by
  have hopened : read (front ++ "\x27") = .closing found content := by
    rw [read_append, h]
    rfl
  have hbody : read (front ++ "\x27" ++ doubled s) =
      (doubledChars s.toList).foldl Reader.step (.closing found content) := by
    rw [read_append, hopened, Reader.read, doubled, String.toList_ofList]
  constructor
  · rintro ⟨_, _, _, hfound⟩
    by_contra hother
    push Not at hother
    have hgrows : found.length <
        ((doubledChars s.toList).foldl Reader.step (.closing found content)).found.length :=
      Reader.length_found_lt hother content
    rw [hbody, hopened, Reader.found] at hfound
    rw [hfound] at hgrows
    exact absurd hgrows (Nat.lt_irrefl _)
  · intro hquotes
    rw [Reader.foldl_doubled_closing hquotes] at hbody
    refine ⟨content, ?_, ?_, ?_⟩
    · rw [hopened, Reader.content?]
    · rw [hbody, Reader.content?]
    · rw [hbody, hopened, Reader.found, Reader.found]

end Constants

/-! ## Values -/

section Values

variable {l : Decimal.Layout} {d : Decimal.Digits}

theorem balanced_doubled (s : String) : Balanced (doubled s) := by
  rw [Balanced, doubled, String.toList_ofList]
  induction s.toList with
  | nil => simp [doubledChars]
  | cons c cs ih =>
    by_cases hc : c = '\x27'
    · rw [hc, doubledChars_quote_cons, List.count_cons_self, List.count_cons_self]
      simpa [Nat.even_add_one] using ih
    · rwa [doubledChars_cons hc, List.count_cons_of_ne hc]

theorem quoteFree_zeros (n : Nat) : QuoteFree (Decimal.zeros n) := by
  rw [Decimal.zeros, quoteFree_ofList]
  exact fun hmem => absurd (List.eq_of_mem_replicate hmem) (by decide)

theorem quote_not_mem_shortest (tie : Decimal.Tie) (m : Nat) (e : Int) :
    '\x27' ∉ (Decimal.shortest tie m e).digits := by
  rw [Decimal.shortest]
  split
  · intro hmem
    have hdigit := Nat.isDigit_of_mem_toDigits (by decide) (by decide) hmem
    exact absurd hdigit (by decide)
  · exact List.not_mem_nil

theorem quoteFree_positional (h : '\x27' ∉ d.digits) :
    QuoteFree d.positional.1 ∧ QuoteFree d.positional.2 := by
  have hempty : QuoteFree "" := by decide
  have hzero : QuoteFree "0" := by decide
  have htake : ∀ n, '\x27' ∉ d.digits.take n := fun n hmem => h (List.mem_of_mem_take hmem)
  have hdrop : ∀ n, '\x27' ∉ d.digits.drop n := fun n hmem => h (List.mem_of_mem_drop hmem)
  by_cases hpoint : d.point ≤ 0
  · simp [Decimal.Digits.positional, hpoint, quoteFree_zeros, h, hzero]
  · by_cases hwhole : d.digits.length ≤ d.point.toNat
    · simp [Decimal.Digits.positional, hpoint, hwhole, quoteFree_zeros, h, hempty]
    · simp [Decimal.Digits.positional, hpoint, hwhole, htake, hdrop]

theorem quoteFree_scientific (h : '\x27' ∉ d.digits) : QuoteFree d.scientific := by
  have htake : '\x27' ∉ d.digits.take 1 := fun hmem => h (List.mem_of_mem_take hmem)
  have hfraction : QuoteFree (if (d.digits.drop 1).isEmpty then ""
      else "." ++ String.ofList (d.digits.drop 1)) := by
    split
    · decide
    · exact quoteFree_append.2
        ⟨by decide, quoteFree_ofList.2 fun hmem => h (List.mem_of_mem_drop hmem)⟩
  have hsign : QuoteFree (if d.point - 1 < 0 then "-" else "+") := by
    split <;> decide
  rw [Decimal.Digits.scientific]
  simp only [quoteFree_append, quoteFree_ofList]
  exact ⟨⟨⟨⟨htake, hfraction⟩, by decide⟩, hsign⟩, quoteFree_repr _⟩

theorem quoteFree_writeDigits (hl : QuoteFree l.wholeTail) (h : '\x27' ∉ d.digits) :
    QuoteFree (l.writeDigits d) := by
  obtain ⟨hwhole, hfraction⟩ := quoteFree_positional h
  have hpoint : QuoteFree "." := by decide
  by_cases hrange : l.positional.1 ≤ d.point - 1 ∧ d.point - 1 ≤ l.positional.2
  · by_cases hempty : d.positional.2.isEmpty
    · simp [Decimal.Layout.writeDigits, hrange, hempty, hwhole, hl]
    · simp [Decimal.Layout.writeDigits, hrange, hempty, hwhole, hpoint, hfraction]
  · rw [Decimal.Layout.writeDigits, if_neg hrange]
    exact quoteFree_scientific h

theorem quoteFree_write_plain (x : Float) : QuoteFree (Decimal.Layout.plain.write x) := by
  rw [Decimal.Layout.write]
  split
  · decide
  · split <;> decide
  · rename_i negative m e _
    have hmagnitude : QuoteFree (if m = 0 then "0" ++ Decimal.Layout.plain.wholeTail
        else Decimal.Layout.plain.writeDigits (Decimal.shortest Decimal.Layout.plain.tie m e)) := by
      split
      · decide
      · exact quoteFree_writeDigits (by decide) (quote_not_mem_shortest _ m e)
    cases negative with
    | false => exact hmagnitude
    | true => exact quoteFree_append.2 ⟨by decide, hmagnitude⟩

/-- **The quotes of a value are even in number**, and only texts have any. -/
theorem balanced_sql (d : Datum) : Balanced d.sql := by
  cases d with
  | null => exact QuoteFree.balanced (by decide)
  | bool b => cases b <;> exact QuoteFree.balanced (by decide)
  | int i =>
    refine QuoteFree.balanced ?_
    rw [Datum.sql, Int.toString_eq_repr, Int.repr_eq_if]
    split
    · exact quoteFree_repr _
    · exact quoteFree_append.2 ⟨by decide, quoteFree_repr _⟩
  | float x => exact (quoteFree_write_plain x).balanced
  | text s =>
    rw [Datum.sql, quote_eq]
    exact (balanced_doubled s).enclosed

end Values

end Sql

end WhatIf
