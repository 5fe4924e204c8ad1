/-!
# Spans of a text

A span is a pair of byte offsets into the UTF-8 form of a text. Cutting a span out is partial: the
offsets have to be in order, inside the text, and at the start of a character. `cut_append` says
that the offsets of a middle part cut out that part.
-/

namespace FilterForest
namespace Text

/-- The number of bytes of the UTF-8 form of a text. -/
def byteSize : List Char → Nat
  | [] => 0
  | c :: rest => c.utf8Size + byteSize rest

@[simp] theorem byteSize_nil : byteSize [] = 0 := rfl

@[simp] theorem byteSize_cons (c : Char) (s : List Char) :
    byteSize (c :: s) = c.utf8Size + byteSize s := rfl

@[simp] theorem byteSize_append (s t : List Char) :
    byteSize (s ++ t) = byteSize s + byteSize t := by
  induction s with
  | nil => simp
  | cons c s ih => simp [ih, Nat.add_assoc]

def offsetOf? (c : Char) : List Char → Option Nat
  | [] => none
  | head :: rest => if head = c then some 0 else (offsetOf? c rest).map (head.utf8Size + ·)

def lastOffsetOf? (c : Char) : List Char → Option Nat
  | [] => none
  | head :: rest =>
    match lastOffsetOf? c rest with
    | some offset => some (head.utf8Size + offset)
    | none => if head = c then some 0 else none

structure Span where
  start : Nat
  stop : Nat
deriving DecidableEq

/-- Divides a text after a number of bytes, if a character starts there. -/
def divide? : Nat → List Char → Option (List Char × List Char)
  | 0, s => some ([], s)
  | _ + 1, [] => none
  | offset + 1, c :: rest =>
    if c.utf8Size ≤ offset + 1 then
      (divide? (offset + 1 - c.utf8Size) rest).map fun (before, after) => (c :: before, after)
    else none

theorem divide?_append (before after : List Char) :
    divide? (byteSize before) (before ++ after) = some (before, after) := by
  induction before with
  | nil => simp [divide?]
  | cons c before ih =>
    obtain ⟨n, hn⟩ : ∃ n, byteSize (c :: before) = n + 1 := by
      have := c.utf8Size_pos
      exact ⟨c.utf8Size + byteSize before - 1, by simp only [byteSize_cons]; omega⟩
    have hsize : n + 1 = c.utf8Size + byteSize before := by rw [← hn, byteSize_cons]
    have hle : c.utf8Size ≤ n + 1 := by omega
    have hrest : n + 1 - c.utf8Size = byteSize before := by omega
    rw [hn, List.cons_append, divide?, if_pos hle, hrest, ih]
    rfl

/-- The part of a text that a span covers, none if the span does not lie at characters of it. -/
def cut? (span : Span) (s : List Char) : Option (List Char) :=
  if span.start ≤ span.stop then
    (divide? span.start s).bind fun (_, rest) =>
      (divide? (span.stop - span.start) rest).map fun (part, _) => part
  else none

theorem cut?_append (before part after : List Char) :
    cut? ⟨byteSize before, byteSize before + byteSize part⟩ (before ++ (part ++ after)) =
      some part := by
  simp [cut?, divide?_append]

end Text
end FilterForest
