import FilterForest.Json.Printer
import FilterForest.Proofs.Json.Layout
import FilterForest.Proofs.Json.Scan
import FilterForest.Proofs.Text.Unambiguous

/-!
# Values from their text

What is written as null without being null, a number that is not finite or a part that denotes
nothing, is left out here. Every other value is determined by its compact text: the text determines
the tokens, and the tokens are read value by value.
-/
namespace FilterForest
namespace Json

open Text

/-- The values that are written as what they are. -/
inductive IsWritable : Json → Prop
  | null : IsWritable null
  | bool (value : Bool) : IsWritable (bool value)
  | integer (value : ℤ) : IsWritable (integer value)
  | real (negative : Bool) (m : Magnitude) : IsWritable (real (.finite negative m))
  | string (value : String) : IsWritable (string value)
  | array {items : List Json} (h : ∀ item ∈ items, IsWritable item) : IsWritable (array items)
  | object {members : List (String × Json)} (h : ∀ member ∈ members, IsWritable member.2) :
    IsWritable (object members)

def memberToken (member : String × Json) : List Token :=
  .ofString member.1 :: .colon :: tokens member.2

theorem itemTokens_eq (items : List Json) :
    itemTokens items = [Token.comma].intercalate (items.map tokens) := by
  induction items with
  | nil => rfl
  | cons item items ih =>
    cases items with
    | nil => simp [itemTokens]
    | cons next items =>
      rw [itemTokens, ih]
      · simp [List.intercalate_cons_cons]
      · exact List.cons_ne_nil _ _

theorem memberTokens_eq (members : List (String × Json)) :
    memberTokens members = [Token.comma].intercalate (members.map memberToken) := by
  induction members with
  | nil => rfl
  | cons member members ih =>
    obtain ⟨name, value⟩ := member
    cases members with
    | nil => simp [memberTokens, memberToken]
    | cons next members =>
      rw [memberTokens, ih]
      · simp [List.intercalate_cons_cons, memberToken]
      · exact List.cons_ne_nil _ _

theorem tokens_array (items : List Json) : (array items).tokens =
    .openBracket :: ([Token.comma].intercalate (items.map tokens) ++ [.closeBracket]) := by
  rw [tokens, itemTokens_eq]
  rfl

theorem tokens_object (members : List (String × Json)) : (object members).tokens =
    .openBrace :: ([Token.comma].intercalate (members.map memberToken) ++ [.closeBrace]) := by
  rw [tokens, memberTokens_eq]
  rfl

/-- Tokens that read back from their text, in front of anything but a numeral. -/
structure WellWritten (ts : List Token) : Prop where
  written : ∀ token ∈ ts, token.IsWritten
  apart : ∀ rest : List Token, rest.IsChain Token.Apart →
    (∀ token ∈ rest.head?, token.isNumeral = false) → (ts ++ rest).IsChain Token.Apart

namespace WellWritten

variable {ts us : List Token} {token : Token}

theorem isChain_cons {rest : List Token} (hrest : rest.IsChain Token.Apart)
    (h : token.isNumeral = true → ∀ next ∈ rest.head?, next.isNumeral = false) :
    (token :: rest).IsChain Token.Apart := by
  cases rest with
  | nil => exact .singleton token
  | cons next rest => exact List.isChain_cons_cons.mpr ⟨fun hnumeral => h hnumeral next rfl, hrest⟩

theorem nil : WellWritten [] where
  written := fun _ h => nomatch h
  apart := fun _ hrest _ => hrest

theorem singleton (h : token.IsWritten) : WellWritten [token] where
  written := by
    intro other hother
    rw [List.mem_singleton.mp hother]
    exact h
  apart := fun _ hrest hhead => isChain_cons hrest fun _ => hhead

theorem cons (h : token.IsWritten) (hpunctuation : token.isNumeral = false)
    (hts : WellWritten ts) : WellWritten (token :: ts) where
  written := List.forall_mem_cons.mpr ⟨h, hts.written⟩
  apart := by
    intro rest hrest hhead
    apply isChain_cons (hts.apart rest hrest hhead)
    intro hnumeral
    rw [hpunctuation] at hnumeral
    contradiction

theorem append (hts : WellWritten ts) (hus : WellWritten (token :: us))
    (hpunctuation : token.isNumeral = false) : WellWritten (ts ++ token :: us) where
  written := List.forall_mem_append.mpr ⟨hts.written, hus.written⟩
  apart := by
    intro rest hrest hhead
    rw [List.append_assoc]
    apply hts.apart _ (hus.apart rest hrest hhead)
    intro next hnext
    obtain rfl := Option.some.inj hnext
    exact hpunctuation

theorem intercalate {parts : List (List Token)} (hparts : ∀ part ∈ parts, WellWritten part)
    (hus : WellWritten (token :: us)) (hpunctuation : token.isNumeral = false) :
    WellWritten ([Token.comma].intercalate parts ++ token :: us) := by
  induction parts with
  | nil => exact hus
  | cons part parts ih =>
    obtain ⟨hpart, hothers⟩ := List.forall_mem_cons.mp hparts
    cases parts with
    | nil =>
      rw [List.intercalate_singleton]
      exact hpart.append hus hpunctuation
    | cons next parts =>
      rw [List.intercalate_cons_cons, List.append_assoc, List.append_assoc]
      exact hpart.append (cons trivial rfl (ih hothers)) rfl

end WellWritten

theorem isWritten_ofString (s : String) : (Token.ofString s).IsWritten := ⟨s.toList, rfl⟩

theorem wellWritten_tokens {value : Json} (h : value.IsWritable) : WellWritten value.tokens := by
  induction h with
  | null => exact .singleton trivial
  | bool value => exact .singleton trivial
  | integer value => exact .singleton (Numeral.wellFormed_ofInt value)
  | real negative m => exact .singleton (Numeral.wellFormed_ofFinite negative m)
  | string value => exact .singleton (isWritten_ofString value)
  | array h ih =>
    rw [tokens_array]
    refine .cons trivial rfl (.intercalate ?_ (.singleton trivial) rfl)
    intro part hpart
    obtain ⟨item, hitem, rfl⟩ := List.mem_map.mp hpart
    exact ih item hitem
  | object h ih =>
    rw [tokens_object]
    refine .cons trivial rfl (.intercalate ?_ (.singleton trivial) rfl)
    intro part hpart
    obtain ⟨member, hmember, rfl⟩ := List.mem_map.mp hpart
    exact .cons (isWritten_ofString _) rfl (.cons trivial rfl (ih member hmember))

theorem ofChar_injective : Function.Injective Piece.ofChar := by
  intro c c' h
  unfold Piece.ofChar at h
  split at h
  · split at h
    · exact Char.toNat_inj.mp (Piece.unit.inj h)
    · exact nomatch h
  · split at h
    · exact nomatch h
    · exact Piece.char.inj h

theorem ofString_inj {s t : String} (h : Token.ofString s = Token.ofString t) : s = t :=
  String.toList_inj.mp (List.map_injective_iff.mpr ofChar_injective (Token.string.inj h))

theorem delimits_comma {close : Token} (h : Token.comma ≠ close) :
    Delimits (fun _ => True) [Token.comma] close where
  separated := fun _ => trivial
  closed := fun _ => trivial
  distinct := fun _ _ heq => h (List.cons.inj heq).1

/-- No value starts with a closing symbol. -/
theorem tokens_append_ne (value : Json) (r s : List Token) :
    value.tokens ++ r ≠ .closeBracket :: s := by
  intro heq
  cases value with
  | real x => cases x <;> exact nomatch (List.cons.inj heq).1
  | _ => exact nomatch (List.cons.inj heq).1

theorem memberToken_append_ne (member : String × Json) (r s : List Token) :
    memberToken member ++ r ≠ .closeBrace :: s := by
  intro heq
  exact nomatch (List.cons.inj heq).1

/-- A value is read from the start of a list of tokens in one way only. -/
theorem unambiguous_tokens {a b : Json} (ha : a.IsWritable) (hb : b.IsWritable) :
    Unambiguous tokens Eq (fun _ => True) a b := by
  induction ha generalizing b with
  | null =>
    intro r s _ _ heq
    cases hb with
    | null => exact ⟨rfl, (List.cons.inj heq).2⟩
    | _ => exact nomatch (List.cons.inj heq).1
  | bool value =>
    intro r s _ _ heq
    cases hb with
    | bool value' => exact ⟨by rw [Token.bool.inj (List.cons.inj heq).1], (List.cons.inj heq).2⟩
    | _ => exact nomatch (List.cons.inj heq).1
  | integer value =>
    intro r s _ _ heq
    cases hb with
    | integer value' =>
      have hvalue := Numeral.ofInt_inj (Token.numeral.inj (List.cons.inj heq).1)
      exact ⟨by rw [hvalue], (List.cons.inj heq).2⟩
    | real negative m =>
      exact absurd (Token.numeral.inj (List.cons.inj heq).1) (Numeral.ofInt_ne_ofFinite _ _ _)
    | _ => exact nomatch (List.cons.inj heq).1
  | real negative m =>
    intro r s _ _ heq
    cases hb with
    | integer value' =>
      exact absurd (Token.numeral.inj (List.cons.inj heq).1).symm (Numeral.ofInt_ne_ofFinite _ _ _)
    | real negative' m' =>
      obtain ⟨rfl, rfl⟩ := Numeral.ofFinite_inj (Token.numeral.inj (List.cons.inj heq).1)
      exact ⟨rfl, (List.cons.inj heq).2⟩
    | _ => exact nomatch (List.cons.inj heq).1
  | string value =>
    intro r s _ _ heq
    cases hb with
    | string value' => exact ⟨by rw [ofString_inj (List.cons.inj heq).1], (List.cons.inj heq).2⟩
    | _ => exact nomatch (List.cons.inj heq).1
  | array h ih =>
    intro r s _ _ heq
    cases hb with
    | array h' =>
      simp only [tokens_array, List.cons_append, List.append_assoc, List.nil_append] at heq
      obtain ⟨hsame, hrest⟩ := forall₂_of_intercalate (delimits_comma (by decide))
        (fun a _ => tokens_append_ne a) (fun b _ => tokens_append_ne b)
        (fun a ha b hb => ih a ha (h' b hb)) (List.cons.inj heq).2
      rw [List.forall₂_eq_eq_eq] at hsame
      exact ⟨congrArg array hsame, hrest⟩
    | _ => exact nomatch (List.cons.inj heq).1
  | @object members h ih =>
    intro r s _ _ heq
    cases hb with
    | @object members' h' =>
      simp only [tokens_object, List.cons_append, List.append_assoc, List.nil_append] at heq
      have hmember : ∀ a ∈ members, ∀ b ∈ members',
          Unambiguous memberToken Eq (fun _ => True) a b := by
        intro a ha b hb r s hr hs hab
        obtain ⟨hname, hvalue⟩ := List.cons.inj hab
        obtain ⟨heq', hrest⟩ := ih a ha (h' b hb) r s hr hs (List.cons.inj hvalue).2
        exact ⟨Prod.ext (ofString_inj hname) heq', hrest⟩
      obtain ⟨hsame, hrest⟩ := forall₂_of_intercalate (delimits_comma (by decide))
        (fun a _ => memberToken_append_ne a) (fun b _ => memberToken_append_ne b) hmember
        (List.cons.inj heq).2
      rw [List.forall₂_eq_eq_eq] at hsame
      exact ⟨congrArg object hsame, hrest⟩
    | _ => exact nomatch (List.cons.inj heq).1

theorem ofText?_compact {value : Json} (h : value.IsWritable) :
    Token.ofText? value.compact = some value.tokens := by
  have hwell := wellWritten_tokens h
  have hapart := hwell.apart [] .nil (fun _ h => nomatch h)
  rw [List.append_nil] at hapart
  exact Token.ofText?_text hwell.written hapart

/-- Values with the same compact text are equal. -/
theorem compact_inj {a b : Json} (ha : a.IsWritable) (hb : b.IsWritable)
    (h : a.compact = b.compact) : a = b := by
  have htokens : a.tokens = b.tokens :=
    Option.some.inj ((ofText?_compact ha).symm.trans (h ▸ ofText?_compact hb))
  exact (unambiguous_tokens ha hb [] [] trivial trivial (by rw [htokens])).1

end Json
end FilterForest
