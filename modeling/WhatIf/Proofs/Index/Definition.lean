import WhatIf.Index.Hypothetical
import WhatIf.Proofs.Text.Literals
/-!
# Index — the texts in a definition

A partial index is defined by a statement in which texts of its predicate stand
as constants. A text that is compared with a column stands outside of every
literal (`Compares`), so its quotes delimit it. A text in a list stands inside of
the literal the list is written as (`Lists`): there its opening quote ends that
literal, and what follows is read as part of the statement. Either way the
statement ends outside of a literal, because the quotes of every value are even
in number (`read_definition`).
-/

namespace WhatIf

namespace Text

variable {sep : String} {parts : List String}

/-- Texts with a separator behind each. -/
def terminated (sep : String) (parts : List String) : String :=
  String.join (parts.map fun s => s ++ sep)

theorem join_concat (sep : String) (before : List String) (s : String) :
    join sep (before ++ [s]) = terminated sep before ++ s := by
  induction before with
  | nil => simp [join, terminated]
  | cons t before ih =>
    have hne : before ++ [s] ≠ [] := by simp
    rw [join] at ih
    rw [List.cons_append, join, String.intercalate_cons_of_ne_nil hne, ih]
    simp only [terminated, List.map_cons, String.join_cons, String.append_assoc]

/-- In front of a part that is joined stand the parts before it, each terminated. -/
theorem join_append_cons (sep : String) (before : List String) (s : String) (after : List String) :
    ∃ back, join sep (before ++ s :: after) = terminated sep before ++ s ++ back := by
  rcases eq_or_ne after [] with rfl | hne
  · exact ⟨"", by rw [join_concat, String.append_empty]⟩
  · have hsplit : before ++ s :: after = (before ++ [s]) ++ after := by simp
    refine ⟨sep ++ join sep after, ?_⟩
    rw [hsplit, join, String.intercalate_append_of_ne_nil (by simp) hne, ← join, ← join,
      join_concat]
    simp only [String.append_assoc]

theorem balanced_terminated (hsep : Sql.Balanced sep) (h : ∀ s ∈ parts, Sql.Balanced s) :
    Sql.Balanced (terminated sep parts) :=
  Sql.balanced_join (List.forall_mem_map.2 fun s hs => (h s hs).append hsep)

/-- What is joined is settled if its parts are. -/
theorem settled_join (hsep : Sql.Balanced sep) (hne : parts ≠ [])
    (h : ∀ s ∈ parts, Sql.Settled s) : Sql.Settled (join sep parts) := by
  obtain ⟨before, s, rfl⟩ := List.eq_nil_or_concat' parts |>.resolve_left hne
  have hbefore : Sql.Balanced (terminated sep before) :=
    balanced_terminated hsep fun t ht => (h t (List.mem_append_left _ ht)).balanced
  rw [join_concat]
  exact hbefore.append_settled (h s (List.mem_append_right _ (List.mem_singleton_self s)))

theorem balanced_join (hsep : Sql.Balanced sep) (h : ∀ s ∈ parts, Sql.Balanced s) :
    Sql.Balanced (join sep parts) := by
  rcases List.eq_nil_or_concat' parts with rfl | ⟨before, s, rfl⟩
  · simp [join, Sql.Balanced]
  · have hbefore : Sql.Balanced (terminated sep before) :=
      balanced_terminated hsep fun t ht => h t (List.mem_append_left _ ht)
    rw [join_concat]
    exact hbefore.append (h s (List.mem_append_right _ (List.mem_singleton_self s)))

end Text

/-! ## Conjuncts -/

namespace Restriction

open Sql

variable {r : Restriction}

/-- What a conjunct writes in front of the value it compares with. -/
def upToValue (column : String) (op : CompareOp) : String :=
  "(" ++ column ++ " " ++ op.symbol ++ " "

/-- What a conjunct writes in front of a member of its list. -/
def upToMember (column : String) (before : List Datum) : String :=
  "(" ++ column ++ " = ANY (\x27\x7b" ++ Text.terminated "," (before.map Datum.sql)

theorem sql_compare (a : AttNum) (column : String) (op : CompareOp) (d : Datum) :
    sql ⟨a, column, .compare op d⟩ = upToValue column op ++ d.sql ++ ")" := rfl

theorem sql_isIn (a : AttNum) (column : String) (before : List Datum) (d : Datum)
    (after : List Datum) :
    ∃ back, sql ⟨a, column, .isIn (before ++ d :: after)⟩ =
      upToMember column before ++ d.sql ++ back := by
  obtain ⟨back, hback⟩ :=
    Text.join_append_cons "," (before.map Datum.sql) d.sql (after.map Datum.sql)
  refine ⟨back ++ "\x7d\x27))", ?_⟩
  rw [sql, ColumnTest.sql, List.map_append, List.map_cons, hback, upToMember]
  simp only [String.append_assoc]

theorem settled_upToValue {column : String} (h : QuoteFree column) (op : CompareOp) :
    Settled (upToValue column op) := by
  have hsymbol : QuoteFree op.symbol := by cases op <;> decide
  have hfront : QuoteFree ("(" ++ column ++ " " ++ op.symbol) := by
    simp only [quoteFree_append]
    exact ⟨⟨⟨by decide, h⟩, by decide⟩, hsymbol⟩
  exact hfront.balanced.append_settled (QuoteFree.settled (by decide) (by decide))

/-- The members of a list are written inside of a literal. -/
theorem isInside_upToMember {column : String} (h : QuoteFree column) (before : List Datum)
    {r : Reader} (hr : r.isInside = false) :
    (r.read (upToMember column before)).isInside = true := by
  have hfront : Balanced ("(" ++ column ++ " = ANY (") := by
    refine QuoteFree.balanced ?_
    simp only [quoteFree_append]
    exact ⟨⟨by decide, h⟩, by decide⟩
  have hmembers : Balanced ("\x7b" ++ Text.terminated "," (before.map Datum.sql)) := by
    refine (QuoteFree.balanced (by decide)).append ?_
    exact Text.balanced_terminated (QuoteFree.balanced (by decide))
      (List.forall_mem_map.2 fun d _ => balanced_sql d)
  have hsplit : upToMember column before = "(" ++ column ++ " = ANY (" ++ "\x27" ++
      ("\x7b" ++ Text.terminated "," (before.map Datum.sql)) := by
    have hopen : " = ANY (\x27\x7b" = " = ANY (" ++ "\x27" ++ "\x7b" := rfl
    simp only [upToMember, hopen, String.append_assoc]
  have hopened : (r.read ("(" ++ column ++ " = ANY (" ++ "\x27")).isInside = true := by
    calc (r.read ("(" ++ column ++ " = ANY (" ++ "\x27")).isInside
        = ((r.read ("(" ++ column ++ " = ANY (")).step '\x27').isInside := by
          rw [Reader.read_append]
          rfl
      _ = !(r.read ("(" ++ column ++ " = ANY (")).isInside := Reader.isInside_step_quote _
      _ = true := by rw [Reader.isInside_read hfront, hr, Bool.not_false]
  rw [hsplit, Reader.read_append, Reader.isInside_read hmembers, hopened]

theorem settled_sql (h : QuoteFree r.column) : Settled r.sql := by
  have hopen : Balanced ("(" ++ r.column) := (quoteFree_append.2 ⟨by decide, h⟩).balanced
  obtain ⟨a, column, test⟩ := r
  cases test with
  | compare op d =>
    have hvalue := (settled_upToValue h op).balanced.append (balanced_sql d)
    rw [sql_compare]
    exact hvalue.append_settled (QuoteFree.settled (by decide) (by decide))
  | isIn values =>
    have hmembers : Balanced (Text.join "," (values.map Datum.sql)) :=
      Text.balanced_join (QuoteFree.balanced (by decide))
        (List.forall_mem_map.2 fun d _ => balanced_sql d)
    have hlist : Balanced ("\x7b" ++ Text.join "," (values.map Datum.sql) ++ "\x7d") :=
      ((QuoteFree.balanced (by decide)).append hmembers).append (QuoteFree.balanced (by decide))
    have hsplit : sql ⟨a, column, .isIn values⟩ = "(" ++ column ++ " = ANY (" ++
        ("\x27" ++ ("\x7b" ++ Text.join "," (values.map Datum.sql) ++ "\x7d") ++ "\x27") ++
        "))" := by
      have hbefore : " = ANY (\x27\x7b" = " = ANY (" ++ "\x27" ++ "\x7b" := rfl
      have hbehind : "\x7d\x27))" = "\x7d" ++ "\x27" ++ "))" := rfl
      simp only [sql, ColumnTest.sql, hbefore, hbehind, String.append_assoc]
    rw [hsplit]
    exact ((hopen.append (QuoteFree.balanced (by decide))).append hlist.enclosed).append_settled
      (QuoteFree.settled (by decide) (by decide))
  | isNull => exact hopen.append_settled (QuoteFree.settled (by decide) (by decide))
  | isNotNull => exact hopen.append_settled (QuoteFree.settled (by decide) (by decide))

end Restriction

/-! ## Definitions -/

namespace HypotheticalIndex

open Sql

variable {x : HypotheticalIndex} {front s : String}

/-- An index whose names and expressions hold no quote. -/
structure NamesQuoteFree (x : HypotheticalIndex) : Prop where
  relation : QuoteFree x.relation
  columns : ∀ c ∈ x.columns, QuoteFree c.label
  included : ∀ c ∈ x.included, QuoteFree c.2
  predicate : ∀ r ∈ x.predicate, QuoteFree r.column

/-- What the definition writes in front of a conjunct, given the ones before it. -/
def upToConjunct (x : HypotheticalIndex) (earlier : List Restriction) : String :=
  { x with predicate := [] }.definition ++ " WHERE " ++
    Text.terminated " AND " (earlier.map Restriction.sql)

/-- A text is compared with a column, and `front` stands in front of it. -/
def Compares (x : HypotheticalIndex) (front s : String) : Prop :=
  ∃ earlier a column op later,
    x.predicate = earlier ++ ⟨a, column, .compare op (.text s)⟩ :: later ∧
      front = x.upToConjunct earlier ++ Restriction.upToValue column op

/-- A text is a member of a list, and `front` stands in front of it. -/
def Lists (x : HypotheticalIndex) (front s : String) : Prop :=
  ∃ earlier a column before after later,
    x.predicate = earlier ++ ⟨a, column, .isIn (before ++ .text s :: after)⟩ :: later ∧
      front = x.upToConjunct earlier ++ Restriction.upToMember column before

theorem definition_eq (x : HypotheticalIndex) :
    x.definition =
      "CREATE " ++ (if x.unique then "UNIQUE " else "") ++ "INDEX ON " ++ x.relation ++
        " USING " ++ x.method.name ++ " (" ++ Text.join ", " (x.columns.map keySql) ++ ")" ++
      (if x.included.isEmpty then ""
        else " INCLUDE (" ++ Text.join ", " (x.included.map Prod.snd) ++ ")") ++
      (if x.predicate.isEmpty then ""
        else " WHERE " ++ Text.join " AND " (x.predicate.map Restriction.sql)) := rfl

theorem definition_of_predicate (hne : x.predicate ≠ []) :
    x.definition = { x with predicate := [] }.definition ++ " WHERE " ++
      Text.join " AND " (x.predicate.map Restriction.sql) := by
  have hpartial : x.predicate.isEmpty = false := by
    rw [Bool.eq_false_iff]
    exact fun hempty => hne (List.isEmpty_iff.1 hempty)
  rw [definition_eq, definition_eq { x with predicate := [] }, hpartial]
  simp [String.append_assoc]

theorem definition_of_conjunct {earlier later : List Restriction} {r : Restriction}
    (h : x.predicate = earlier ++ r :: later) :
    ∃ back, x.definition = x.upToConjunct earlier ++ r.sql ++ back := by
  obtain ⟨back, hback⟩ := Text.join_append_cons " AND " (earlier.map Restriction.sql) r.sql
    (later.map Restriction.sql)
  have hne : x.predicate ≠ [] := by simp [h]
  refine ⟨back, ?_⟩
  rw [definition_of_predicate hne, h, List.map_append, List.map_cons, hback, upToConjunct]
  simp only [String.append_assoc]

/-- Where a text is compared, its quoted form stands in the definition. -/
theorem Compares.definition_eq (h : x.Compares front s) :
    ∃ back, x.definition = front ++ Datum.quote s ++ back := by
  obtain ⟨earlier, a, column, op, later, hpredicate, rfl⟩ := h
  obtain ⟨back, hback⟩ := definition_of_conjunct hpredicate
  refine ⟨")" ++ back, ?_⟩
  rw [hback, Restriction.sql_compare, Datum.sql]
  simp only [String.append_assoc]

/-- Where a text is listed, its quoted form stands in the definition. -/
theorem Lists.definition_eq (h : x.Lists front s) :
    ∃ back, x.definition = front ++ Datum.quote s ++ back := by
  obtain ⟨earlier, a, column, before, after, later, hpredicate, rfl⟩ := h
  obtain ⟨back, hback⟩ := definition_of_conjunct hpredicate
  obtain ⟨back', hback'⟩ := Restriction.sql_isIn a column before (.text s) after
  refine ⟨back' ++ back, ?_⟩
  rw [hback, hback', Datum.sql]
  simp only [String.append_assoc]

theorem quoteFree_keySql {c : IndexColumn} (h : QuoteFree c.label) : QuoteFree (keySql c) := by
  have htarget : QuoteFree (if c.attnum.isSome then c.label else "(" ++ c.label ++ ")") := by
    split
    · exact h
    · exact quoteFree_append.2 ⟨quoteFree_append.2 ⟨by decide, h⟩, by decide⟩
  have hdirection : QuoteFree (if c.descending then " DESC" else "") := by
    split <;> decide
  have hnulls : QuoteFree (if c.nullsFirst = c.descending then ""
      else if c.nullsFirst then " NULLS FIRST" else " NULLS LAST") := by
    split
    · decide
    · split <;> decide
  exact quoteFree_append.2 ⟨quoteFree_append.2 ⟨htarget, hdirection⟩, hnulls⟩

/-- What stands in front of the predicate is settled. -/
theorem settled_definition_nil (h : x.NamesQuoteFree) :
    Settled { x with predicate := [] }.definition := by
  have hunique : QuoteFree (if x.unique then "UNIQUE " else "") := by
    split <;> decide
  have hmethod : QuoteFree x.method.name := by cases x.method <;> decide
  have hkeys : Balanced (Text.join ", " (x.columns.map keySql)) :=
    Text.balanced_join (QuoteFree.balanced (by decide))
      (List.forall_mem_map.2 fun c hc => (quoteFree_keySql (h.columns c hc)).balanced)
  have hnames : Balanced (Text.join ", " (x.included.map Prod.snd)) :=
    Text.balanced_join (QuoteFree.balanced (by decide))
      (List.forall_mem_map.2 fun c hc => (h.included c hc).balanced)
  have hbefore : Balanced ("CREATE " ++ (if x.unique then "UNIQUE " else "") ++ "INDEX ON " ++
      x.relation ++ " USING " ++ x.method.name ++ " (") := by
    refine QuoteFree.balanced ?_
    simp only [quoteFree_append]
    exact ⟨⟨⟨⟨⟨⟨by decide, hunique⟩, by decide⟩, h.relation⟩, by decide⟩, hmethod⟩, by decide⟩
  have hhead : Settled ("CREATE " ++ (if x.unique then "UNIQUE " else "") ++ "INDEX ON " ++
      x.relation ++ " USING " ++ x.method.name ++ " (" ++
      Text.join ", " (x.columns.map keySql) ++ ")") :=
    (hbefore.append hkeys).append_settled (QuoteFree.settled (by decide) (by decide))
  rw [definition_eq]
  by_cases hempty : x.included.isEmpty
  · simpa [hempty] using hhead
  · have hincluded : Settled (" INCLUDE (" ++ Text.join ", " (x.included.map Prod.snd) ++ ")") :=
      ((QuoteFree.balanced (by decide)).append hnames).append_settled
        (QuoteFree.settled (by decide) (by decide))
    simpa [hempty] using hhead.balanced.append_settled hincluded

theorem settled_definition (h : x.NamesQuoteFree) : Settled x.definition := by
  rcases eq_or_ne x.predicate [] with hempty | hne
  · have hsame : { x with predicate := [] } = x := by rw [← hempty]
    rw [← hsame]
    exact settled_definition_nil h
  · have hconjuncts : Settled (Text.join " AND " (x.predicate.map Restriction.sql)) :=
      Text.settled_join (QuoteFree.balanced (by decide)) (by simpa using hne)
        (List.forall_mem_map.2 fun r hr => Restriction.settled_sql (h.predicate r hr))
    rw [definition_of_predicate hne]
    exact ((settled_definition_nil h).balanced.append
      (QuoteFree.balanced (by decide))).append_settled hconjuncts

theorem balanced_upToConjunct (h : x.NamesQuoteFree) {earlier : List Restriction}
    (hearlier : ∀ r ∈ earlier, r ∈ x.predicate) : Balanced (x.upToConjunct earlier) := by
  have hterminated : Balanced (Text.terminated " AND " (earlier.map Restriction.sql)) :=
    Text.balanced_terminated (QuoteFree.balanced (by decide)) (List.forall_mem_map.2 fun r hr =>
      (Restriction.settled_sql (h.predicate r (hearlier r hr))).balanced)
  exact ((settled_definition_nil h).balanced.append (QuoteFree.balanced (by decide))).append
    hterminated

theorem Compares.read_front (h : x.NamesQuoteFree) (hs : x.Compares front s) :
    ∃ found, read front = .outside found := by
  obtain ⟨earlier, a, column, op, later, hpredicate, rfl⟩ := hs
  have hcolumn : QuoteFree column :=
    h.predicate ⟨a, column, .compare op (.text s)⟩ (by simp [hpredicate])
  have hearlier : Balanced (x.upToConjunct earlier) :=
    balanced_upToConjunct h fun r hr => by simp [hpredicate, hr]
  exact Reader.read_outside rfl
    (hearlier.append_settled (Restriction.settled_upToValue hcolumn op))

theorem Lists.read_front (h : x.NamesQuoteFree) (hs : x.Lists front s) :
    ∃ found content, read front = .inside found content := by
  obtain ⟨earlier, a, column, before, after, later, hpredicate, rfl⟩ := hs
  have hcolumn : QuoteFree column :=
    h.predicate ⟨a, column, .isIn (before ++ .text s :: after)⟩ (by simp [hpredicate])
  have hearlier : Balanced (x.upToConjunct earlier) :=
    balanced_upToConjunct h fun r hr => by simp [hpredicate, hr]
  have houtside : (read (x.upToConjunct earlier)).isInside = false :=
    (Reader.isInside_read hearlier).trans rfl
  rw [read_append]
  exact Reader.isInside_iff.1 (Restriction.isInside_upToMember hcolumn before houtside)

/-- **What is read of a definition.** Where no name and no expression holds a
quote, a definition ends outside of a literal. Each text that is compared is the
content of one literal. A text in a list is enclosed if and only if it holds
nothing but quotes; so all texts are enclosed if and only if the lists have no
other texts. -/
theorem read_definition (h : x.NamesQuoteFree) :
    (∃ found, read x.definition = .outside found) ∧
      (∀ front s, x.Compares front s →
        (∃ back, x.definition = front ++ Datum.quote s ++ back) ∧ Encloses front s ∧
          ∃ found, read front = .outside found ∧
            read (front ++ Datum.quote s ++ ")") =
              .outside (found ++ [.literal s.toList, .plain ')'])) ∧
      (∀ front s, x.Lists front s →
        (∃ back, x.definition = front ++ Datum.quote s ++ back) ∧
          (Encloses front s ↔ ∀ c ∈ s.toList, c = '\x27')) ∧
      ((∀ front s, x.Compares front s ∨ x.Lists front s → Encloses front s) ↔
        ∀ r ∈ x.predicate, ∀ values, r.test = .isIn values →
          ∀ s, Datum.text s ∈ values → ∀ c ∈ s.toList, c = '\x27') := by
  have hcompared : ∀ front s, x.Compares front s → Encloses front s := by
    intro front s hs
    obtain ⟨found, hfound⟩ := hs.read_front h
    exact encloses_outside hfound
  have hlisted : ∀ front s, x.Lists front s →
      (Encloses front s ↔ ∀ c ∈ s.toList, c = '\x27') := by
    intro front s hs
    obtain ⟨found, content, hfound⟩ := hs.read_front h
    exact encloses_inside_iff hfound
  refine ⟨Reader.read_outside rfl (settled_definition h), fun front s hs => ?_,
    fun front s hs => ⟨hs.definition_eq, hlisted front s hs⟩, fun hall => ?_, fun hall => ?_⟩
  · obtain ⟨found, hfound⟩ := hs.read_front h
    refine ⟨hs.definition_eq, hcompared front s hs, found, hfound, ?_⟩
    rw [read_append]
    exact read_quote_outside hfound (by decide)
  · intro r hr values hvalues s hs
    obtain ⟨earlier, later, hpredicate⟩ := List.append_of_mem hr
    obtain ⟨before, after, rfl⟩ := List.append_of_mem hs
    obtain ⟨a, column, test⟩ := r
    have hlists : x.Lists _ s :=
      ⟨earlier, a, column, before, after, later, by rw [hpredicate, ← hvalues], rfl⟩
    exact (hlisted _ s hlists).1 (hall _ s (.inr hlists))
  · rintro front s (hs | hs)
    · exact hcompared front s hs
    · refine (hlisted front s hs).2 ?_
      obtain ⟨earlier, a, column, before, after, later, hpredicate, -⟩ := hs
      exact hall _ (by rw [hpredicate]; exact List.mem_append_right _ List.mem_cons_self) _ rfl s
        (List.mem_append_right _ List.mem_cons_self)

/-! ### Indexes on orders -/

/-- An index on the orders of some states. -/
def ordersIndex (size : IndexSize) (tests : List ColumnTest) : HypotheticalIndex where
  oid := ⟨16385⟩
  relid := ⟨16384⟩
  relation := "orders"
  name := "<16385>btree_orders_id"
  method := .btree
  columns := [⟨some ⟨1⟩, "id", .int4, false, false⟩]
  included := []
  unique := false
  predicate := tests.map fun test => ⟨⟨2⟩, "status", test⟩
  size

theorem namesQuoteFree_ordersIndex (size : IndexSize) (tests : List ColumnTest) :
    (ordersIndex size tests).NamesQuoteFree where
  relation := show QuoteFree "orders" by decide
  columns := by simp [ordersIndex, QuoteFree]
  included := by simp [ordersIndex]
  predicate := by simp [ordersIndex, QuoteFree]

/-- An index on the orders whose state is a text with a quote, or is one. -/
def quotesIndex : HypotheticalIndex :=
  ordersIndex ⟨1, 0.0, 0⟩ [.compare .eq (.text "it\x27s"), .isIn [.int 1, .text "\x27"]]

theorem read_definition_orders :
    quotesIndex.NamesQuoteFree ∧
      quotesIndex.definition = "CREATE INDEX ON orders USING btree (id) " ++
        "WHERE (status = \x27it\x27\x27s\x27) AND " ++
        "(status = ANY (\x27\x7b1,\x27\x27\x27\x27\x7d\x27))" ∧
      ∀ front s, quotesIndex.Compares front s ∨ quotesIndex.Lists front s → Encloses front s := by
  have hnames : quotesIndex.NamesQuoteFree := namesQuoteFree_ordersIndex _ _
  refine ⟨hnames, rfl, (read_definition hnames).2.2.2.2 ?_⟩
  simp [quotesIndex, ordersIndex]

/-- A table of orders. -/
def ordersTable : Relation where
  oid := ⟨16384⟩
  name := "orders"
  kind := .relation
  persistence := .permanent
  tablespace := .invalid
  columns := [⟨⟨1⟩, "id", .int4, false, none⟩, ⟨⟨2⟩, "status", .text, false, none⟩]
  pages := 0
  tuples := 0.0

/-- What such an index is described by, if it tests the state once. -/
def ordersSpec (test : ColumnTest) : IndexSpec :=
  (IndexSpec.onColumns .btree ["id"]).addQual "status" test

theorem build_ordersSpec (test : ColumnTest) :
    ∃ size, build ⟨16385⟩ ordersTable (ordersSpec test) = .ok (ordersIndex size [test]) := by
  have hfault : (ordersSpec test).fault? ordersTable = none := rfl
  have hkeys : (ordersSpec test).keys.mapM (IndexSpec.resolveKey ordersTable) =
      .ok [⟨some ⟨1⟩, "id", .int4, false, false⟩] := rfl
  have hincluded : (ordersSpec test).included.mapM (IndexSpec.findColumn ordersTable) =
      .ok [] := rfl
  have hname : displayName ⟨16385⟩ .btree "orders" ["id"] = "<16385>btree_orders_id" := rfl
  have hid : Text.sameName "id" "status" = false := by decide
  have hstatus : Text.sameName "status" "status" = true := by decide
  have hpredicate : (ordersSpec test).predicate.mapM (IndexSpec.resolveQual ordersTable) =
      .ok [⟨⟨2⟩, "status", test⟩] := by
    simp [ordersSpec, IndexSpec.addQual, IndexSpec.onColumns, IndexSpec.resolveQual, Qual.resolve?,
      Relation.columnNamed?, ordersTable, hid, hstatus]
  rw [build, hfault]
  simp only [hkeys, hincluded, hpredicate, bind, Except.bind, pure, Except.pure, List.map_cons,
    List.map_nil]
  simp only [ordersSpec, IndexSpec.addQual, IndexSpec.onColumns, ordersTable, hname]
  exact ⟨_, rfl⟩

/-- **A text in a list that is not enclosed.** -/
theorem build_not_encloses : ∃ x,
    build ⟨16385⟩ ordersTable (ordersSpec (.isIn [.text "open"])) = .ok x ∧ x.NamesQuoteFree ∧
      x.definition = "CREATE INDEX ON orders USING btree (id) " ++
        "WHERE (status = ANY (\x27\x7b\x27open\x27\x7d\x27))" ∧
      ∃ front, x.Lists front "open" ∧ ¬ Encloses front "open" := by
  obtain ⟨size, hbuild⟩ := build_ordersSpec (.isIn [.text "open"])
  have hlists : (ordersIndex size [.isIn [.text "open"]]).Lists _ "open" :=
    ⟨[], ⟨2⟩, "status", [], [], [], rfl, rfl⟩
  refine ⟨_, hbuild, namesQuoteFree_ordersIndex size _, rfl, _, hlists, fun hencloses => ?_⟩
  obtain ⟨found, content, hfront⟩ := hlists.read_front (namesQuoteFree_ordersIndex size _)
  have hfirst : 'o' = '\x27' := (encloses_inside_iff hfront).1 hencloses 'o' (by simp)
  exact absurd hfirst (by decide)

end HypotheticalIndex

end WhatIf
