import FilterForest.Predicate.Cql
import FilterForest.Proofs.Geometry.Readable
import FilterForest.Proofs.Predicate.Same

/-!
# Reading literals and operands

A string ends at a quote that is not doubled, any other literal where no character of a number
follows, and the operand of a spatial test with its own parentheses. So each is read from the start
of a text in one way only, up to the signs of zeros.
-/
namespace FilterForest

open Text

/-- A character as it stands inside a string. -/
def doubled (c : Char) : List Char := if c = '\x27' then [c, c] else [c]

theorem quoteText_append (s rest : List Char) :
    quoteText s ++ rest = '\x27' :: (s.flatMap doubled ++ '\x27' :: rest) := by
  simp only [quoteText, List.cons_append, List.append_assoc, List.nil_append]
  rfl

theorem doubled_quote : doubled '\x27' = ['\x27', '\x27'] := rfl

theorem doubled_of_ne {c : Char} (h : c ≠ '\x27') : doubled c = [c] := if_neg h

/-- Texts that continue no literal. -/
def EndsLiteral (rest : List Char) : Prop := ∀ c ∈ rest.head?, isNumeric c = false ∧ c ≠ '\x27'

theorem EndsLiteral.number {rest : List Char} (h : EndsLiteral rest) : EndsNumber rest :=
  fun c hc => (h c hc).1

theorem endsLiteral_cons {c : Char} (hnumeric : isNumeric c = false) (hquote : c ≠ '\x27')
    (rest : List Char) : EndsLiteral (c :: rest) := by
  intro head hhead
  obtain rfl := Option.some.inj hhead
  exact ⟨hnumeric, hquote⟩

theorem doubled_ne_end {t r r' : List Char} (hr : EndsLiteral r) {c : Char} :
    '\x27' :: r ≠ doubled c ++ t ++ r' := by
  intro heq
  by_cases hquote : c = '\x27'
  · rw [hquote, doubled_quote] at heq
    exact (hr '\x27' (by rw [(List.cons.inj heq).2]; rfl)).2 rfl
  · rw [doubled_of_ne hquote] at heq
    exact hquote (List.cons.inj heq).1.symm

/-- A string is read up to the first quote that is not doubled. -/
theorem quoted_inj {s t r r' : List Char} (hr : EndsLiteral r) (hr' : EndsLiteral r')
    (heq : s.flatMap doubled ++ '\x27' :: r = t.flatMap doubled ++ '\x27' :: r') :
    s = t ∧ r = r' := by
  induction s generalizing t with
  | nil =>
    cases t with
    | nil => exact ⟨rfl, (List.cons.inj heq).2⟩
    | cons c t => exact absurd heq (doubled_ne_end hr)
  | cons c s ih =>
    cases t with
    | nil => exact absurd heq.symm (doubled_ne_end hr')
    | cons c' t =>
      rw [List.flatMap_cons, List.flatMap_cons, List.append_assoc, List.append_assoc] at heq
      have hfirst : c = c' ∧
          s.flatMap doubled ++ '\x27' :: r = t.flatMap doubled ++ '\x27' :: r' := by
        by_cases hquote : c = '\x27'
        · by_cases hquote' : c' = '\x27'
          · rw [hquote, hquote', doubled_quote] at heq
            exact ⟨hquote.trans hquote'.symm, List.append_cancel_left heq⟩
          · rw [hquote, doubled_quote, doubled_of_ne hquote'] at heq
            exact absurd (List.cons.inj heq).1.symm hquote'
        · by_cases hquote' : c' = '\x27'
          · rw [hquote', doubled_quote, doubled_of_ne hquote] at heq
            exact absurd (List.cons.inj heq).1 hquote
          · rw [doubled_of_ne hquote, doubled_of_ne hquote'] at heq
            exact List.cons.inj heq
      obtain ⟨rfl, hrest⟩ := hfirst
      obtain ⟨rfl, hend⟩ := ih hrest
      exact ⟨rfl, hend⟩

theorem unambiguous_quoteText (s t : String) :
    Unambiguous (fun s : String => quoteText s.toList) Eq EndsLiteral s t := by
  intro r r' hr hr' heq
  simp only [quoteText_append] at heq
  obtain ⟨hchars, hrest⟩ := quoted_inj hr hr' (List.cons.inj heq).2
  exact ⟨String.toList_inj.mp hchars, hrest⟩

namespace Literal

/-- The kinds of literals that start differently. -/
inductive Kind
  | text
  | number
  | yes
  | no

def kind : Literal → Kind
  | text _ => .text
  | number _ => .number
  | bool true => .yes
  | bool false => .no

/-- The kind of the literals that start with a character, if there are any. -/
def kindOf (c : Char) : Option Kind :=
  if c = '\x27' then some .text
  else if isNumeric c then some .number
  else if c = 't' then some .yes
  else if c = 'f' then some .no
  else none

theorem kindOf_of_isNumeric {c : Char} (h : isNumeric c = true) : kindOf c = some .number := by
  have hquote : c ≠ '\x27' := by
    rintro rfl
    contradiction
  rw [kindOf, if_neg hquote, if_pos h]

theorem head_cql {a : Literal} (h : a.IsFinite) (rest : List Char) :
    ∃ c tail, a.cql ++ rest = c :: tail ∧ kindOf c = some a.kind := by
  cases a with
  | text s => exact ⟨'\x27', _, quoteText_append _ _, rfl⟩
  | number x =>
    obtain ⟨c, tail, heq, hc⟩ := Binary64.head_plain h rest
    exact ⟨c, tail, heq, kindOf_of_isNumeric hc⟩
  | bool value =>
    cases value with
    | true => exact ⟨'t', _, rfl, rfl⟩
    | false => exact ⟨'f', _, rfl, rfl⟩

theorem cql_append_ne {a : Literal} (h : a.IsFinite) (r s : List Char) : a.cql ++ r ≠ ')' :: s := by
  intro heq
  obtain ⟨c, tail, hhead, hkind⟩ := head_cql h r
  rw [hhead] at heq
  obtain rfl := (List.cons.inj heq).1
  exact nomatch hkind

theorem kind_eq_of_cql {a b : Literal} (ha : a.IsFinite) (hb : b.IsFinite) {r s : List Char}
    (heq : a.cql ++ r = b.cql ++ s) : a.kind = b.kind := by
  obtain ⟨c, tail, hhead, hkind⟩ := head_cql ha r
  obtain ⟨c', tail', hhead', hkind'⟩ := head_cql hb s
  rw [hhead, hhead'] at heq
  rw [(List.cons.inj heq).1, hkind'] at hkind
  exact (Option.some.inj hkind).symm

theorem unambiguous_cql {a b : Literal} (ha : a.IsFinite) (hb : b.IsFinite) :
    Unambiguous cql (same · · = true) EndsLiteral a b := by
  intro r s hr hs heq
  have hkind := kind_eq_of_cql ha hb heq
  cases a with
  | text u =>
    cases b with
    | text v =>
      obtain ⟨rfl, hrest⟩ := unambiguous_quoteText u v r s hr hs heq
      exact ⟨decide_eq_true rfl, hrest⟩
    | number y => simp [kind] at hkind
    | bool b => cases b <;> simp [kind] at hkind
  | number x =>
    cases b with
    | text v => simp [kind] at hkind
    | number y => exact Binary64.unambiguous_plain ha hb r s hr.number hs.number heq
    | bool b => cases b <;> simp [kind] at hkind
  | bool a =>
    cases b with
    | text v => cases a <;> simp [kind] at hkind
    | number y => cases a <;> simp [kind] at hkind
    | bool b =>
      obtain rfl : a = b := by cases a <;> cases b <;> simp [kind] at hkind ⊢
      exact ⟨decide_eq_true rfl, List.append_cancel_left heq⟩

theorem cql_eq_of_same {a b : Literal} (h : a.same b = true) : a.cql = b.cql := by
  cases a with
  | text s =>
    cases b with
    | text t => rw [of_decide_eq_true h]
    | _ => exact absurd h Bool.false_ne_true
  | number x =>
    cases b with
    | number y => exact Binary64.plain_eq_of_same h
    | _ => exact absurd h Bool.false_ne_true
  | bool a =>
    cases b with
    | bool b => rw [of_decide_eq_true h]
    | _ => exact absurd h Bool.false_ne_true

end Literal

namespace SpatialOperand

theorem cql_buffered (g : Geometry) (x : Binary64) : (buffered g x).cql =
    "BUFFER".toList ++ parenthesized (g.wkt ++ ", ".toList ++ x.plain) := rfl

theorem keyword_ne_buffer (g : Geometry) : g.keyword ≠ "BUFFER".toList := by
  have hkeywords : ∀ kind, Geometry.keywords kind ≠ "BUFFER".toList := by decide
  rw [Geometry.keyword_eq]
  exact hkeywords g.kind

theorem ne_open_of_mem_buffer : ∀ c ∈ "BUFFER".toList, (c != '(') = true := by
  simp

theorem unambiguous_cql {a b : SpatialOperand} (ha : a.IsFinite) (hb : b.IsFinite) :
    Unambiguous cql (same · · = true) (fun _ => True) a b := by
  intro r s _ _ heq
  cases a with
  | plain g =>
    cases b with
    | plain h => exact Geometry.unambiguous_wkt ha hb r s trivial trivial heq
    | buffered h y =>
      have hkeyword := Geometry.keyword_inj g.ne_open_of_mem_keyword ne_open_of_mem_buffer heq
      exact absurd hkeyword.1 (keyword_ne_buffer g)
  | buffered g x =>
    cases b with
    | plain h =>
      have hkeyword := Geometry.keyword_inj ne_open_of_mem_buffer h.ne_open_of_mem_keyword heq
      exact absurd hkeyword.1.symm (keyword_ne_buffer h)
    | buffered h y =>
      have hbody := (Geometry.keyword_inj ne_open_of_mem_buffer ne_open_of_mem_buffer heq).2
      simp only [parenthesized_append, List.append_assoc] at hbody
      obtain ⟨hgeometry, hafter⟩ := Geometry.unambiguous_wkt ha.1 hb.1 _ _ trivial trivial
        (List.cons.inj hbody).2
      obtain ⟨hdistance, hrest⟩ := Binary64.unambiguous_plain ha.2 hb.2 _ _
        (endsNumber_cons rfl r) (endsNumber_cons rfl s) (List.append_cancel_left hafter)
      exact ⟨Bool.and_eq_true_iff.mpr ⟨hgeometry, hdistance⟩, (List.cons.inj hrest).2⟩

theorem cql_eq_of_same {a b : SpatialOperand} (ha : a.IsFinite) (h : a.same b = true) :
    a.cql = b.cql := by
  cases a with
  | plain g =>
    cases b with
    | plain g' => exact Geometry.wkt_eq_of_same ha h
    | buffered g' y => exact absurd h Bool.false_ne_true
  | buffered g x =>
    cases b with
    | plain g' => exact absurd h Bool.false_ne_true
    | buffered g' y =>
      obtain ⟨hgeometry, hdistance⟩ := Bool.and_eq_true_iff.mp h
      rw [cql_buffered, cql_buffered, Geometry.wkt_eq_of_same ha.1 hgeometry,
        Binary64.plain_eq_of_same hdistance]

end SpatialOperand
end FilterForest
