import Mathlib.Data.List.Forall2
import Slang.Proofs.Rendered.Digits
import Slang.Proofs.Rendered.Entry

/-!
# Listings in JSON

A listing is an array of objects, one to an entry and one field to a line (`Listing`). Numbers and truth
values stand as they are. A string stands between quotation marks, rune by rune: as itself, or as an escape
that means this rune. A byte that belongs to no character cannot be written, and stands as the character for
unreadable text.

Nothing here looks at how a listing is made; that the listing of rows is one is `listing_arrayLines`.
-/

namespace Slang.Json

open Report (Row)

/-- **How a rune may stand in a string** that can be put into a web page: control characters, quotation
marks, backslashes and what means something in markup are escaped. -/
inductive WritesRune : Rune → Text → Prop where
  | self {c : Char} (hshown : 0x20 ≤ c.toNat)
      (hplain : c ∉ (['"', '\\', '<', '>', '&'] : List Char)) : WritesRune (.char c) (Text.ofChar c)
  | quotationMark : WritesRune (.char '"') "\\\""
  | backslash : WritesRune (.char '\\') "\\\\"
  | lineFeed : WritesRune (.char '\n') "\\n"
  | carriageReturn : WritesRune (.char '\r') "\\r"
  | tab : WritesRune (.char '\t') "\\t"
  | backspace {c : Char} (h : c.toNat = 8) : WritesRune (.char c) "\\b"
  | formFeed {c : Char} (h : c.toNat = 12) : WritesRune (.char c) "\\f"
  | code {c : Char} {digits : Text} (h : digits.SpellsHex 4 c.toNat) : WritesRune (.char c) ("\\u" ++ digits)
  | stray (b : UInt8) : WritesRune (.stray b) "\\ufffd"

/-- A text as a string: its runes one after the other, between quotation marks. -/
inductive WritesString (t : Text) : Text → Prop where
  | runes {units : List Text} (h : List.Forall₂ WritesRune t.runes units) :
      WritesString t ("\"" ++ units.flatten ++ "\"")

/-- A scalar as JSON. -/
inductive Writes : Scalar → Text → Prop where
  | text {t out : Text} (h : WritesString t out) : Writes (.text t) out
  | int (n : Int) : Writes (.int n) (Text.ofInt n)
  | true : Writes (.bool true) "true"
  | false : Writes (.bool false) "false"

/-- The lines of the fields of an object, with a comma after all but the last. -/
inductive Fields : Record → Text → Prop where
  | last {k key value : Text} {v : Scalar} (hkey : WritesString k key) (hvalue : Writes v value) :
      Fields [(k, v)] ("    " ++ key ++ ": " ++ value ++ "\n")
  | cons {k key value more : Text} {v : Scalar} {fs : Record} (hkey : WritesString k key)
      (hvalue : Writes v value) (rest : Fields fs more) :
      Fields ((k, v) :: fs) ("    " ++ key ++ ": " ++ value ++ ",\n" ++ more)

/-- The objects of the entries of rows, with a comma after all but the last. -/
inductive Objects : List Row → Text → Prop where
  | last {r : Row} {fs : Record} {out : Text} (entry : r.Entry fs) (fields : Fields fs out) :
      Objects [r] ("  \x7b\n" ++ out ++ "  \x7d\n")
  | cons {r : Row} {fs : Record} {rs : List Row} {out more : Text} (entry : r.Entry fs)
      (fields : Fields fs out) (rest : Objects rs more) :
      Objects (r :: rs) ("  \x7b\n" ++ out ++ "  \x7d,\n" ++ more)

/-- **A listing of rows**: an array of their entries, in order. -/
inductive Listing : List Row → Text → Prop where
  | nil : Listing [] "[]\n"
  | array {rs : List Row} {out : Text} (objects : Objects rs out) : Listing rs ("[\n" ++ out ++ "]\n")

/-! ### Scalars -/

/-- **Every rune is written as itself or as an escape for it.** -/
theorem writesRune_rune (r : Rune) : WritesRune r (rune .report r) := by
  cases r with
  | stray b => exact .stray b
  | char c =>
    unfold rune
    dsimp only [Style.report]
    simp only [Bool.true_and, Bool.or_eq_true, decide_eq_true_eq]
    split_ifs with hquote hback hfeed hreturn htab hbackspace hform hcode
    · exact hquote ▸ .quotationMark
    · exact hback ▸ .backslash
    · exact hfeed ▸ .lineFeed
    · exact hreturn ▸ .carriageReturn
    · exact htab ▸ .tab
    · exact .backspace hbackspace
    · exact .formFeed hform
    · -- what is escaped by its number has one of four digits
      refine .code (Text.spellsHex_hex ?_).1
      have hmarks : '<'.toNat < 16 ^ 4 ∧ '>'.toNat < 16 ^ 4 ∧ '&'.toNat < 16 ^ 4 := by decide
      rcases hcode with ((hcontrol | (rfl | rfl) | rfl) | hseparator) | hseparator
      · omega
      · exact hmarks.1
      · exact hmarks.2.1
      · exact hmarks.2.2
      · omega
      · omega
    · simp only [not_or] at hcode
      obtain ⟨⟨⟨hshown, ⟨hless, hgreater⟩, hand⟩, -⟩, -⟩ := hcode
      refine .self (Nat.le_of_not_lt hshown) ?_
      simp only [List.mem_cons, List.not_mem_nil, or_false, not_or]
      exact ⟨hquote, hback, hless, hgreater, hand⟩

/-- A string is written rune by rune. -/
theorem writesString_string (t : Text) : WritesString t (string .report t) := by
  have hunits : List.Forall₂ WritesRune t.runes (t.runes.map (rune .report)) :=
    List.forall₂_map_right_iff.mpr (List.forall₂_same.mpr fun r _ => writesRune_rune r)
  exact .runes hunits

/-- Every scalar is written as what it is. -/
theorem writes_scalar (v : Scalar) : Writes v (scalar .report v) := by
  cases v with
  | text t => exact .text (writesString_string t)
  | int n => exact .int n
  | bool b =>
    cases b with
    | true => exact .true
    | false => exact .false

/-! ### Entries -/

/-- The fields of a record, one to a line. -/
theorem fields_joinWith {fs : Record} (hne : fs ≠ []) :
    Fields fs (Text.joinWith ",\n" (fs.map fun f =>
      "    " ++ string .report f.1 ++ ": " ++ scalar .report f.2) ++ "\n") := by
  induction fs with
  | nil => exact absurd rfl hne
  | cons f fs ih =>
    cases fs with
    | nil => exact .last (writesString_string f.1) (writes_scalar f.2)
    | cons g fs =>
      have hcons := Fields.cons (writesString_string f.1) (writes_scalar f.2) (ih (List.cons_ne_nil g fs))
      simp only [List.map_cons, Text.joinWith, List.append_assoc] at hcons ⊢
      exact hcons

/-- An object is written as the entry of its row. -/
theorem objectLines_eq (style : Style) (fs : Record) : objectLines style fs =
    "  \x7b\n" ++ (Text.joinWith ",\n" (fs.map fun f =>
      "    " ++ string style f.1 ++ ": " ++ scalar style f.2) ++ "\n") ++ "  \x7d" := by
  have hend : ("\n  \x7d" : Text) = "\n" ++ "  \x7d" := by decide
  unfold objectLines
  rw [hend, List.append_assoc, List.append_assoc, List.append_assoc]

/-- The entries of rows, one after the other. -/
theorem objects_joinWith {rs : List Row} (hne : rs ≠ []) :
    Objects rs (Text.joinWith ",\n" ((rs.map Row.record).map (objectLines .report)) ++ "\n") := by
  induction rs with
  | nil => exact absurd rfl hne
  | cons r rs ih =>
    -- each object has its fields on lines of their own; between two objects stands a comma
    have hfields := fields_joinWith r.entry_record.ne_nil
    cases rs with
    | nil =>
      have hlast := Objects.last r.entry_record hfields
      simp only [List.map_cons, List.map_nil, Text.joinWith, objectLines_eq, List.append_assoc] at hlast ⊢
      exact hlast
    | cons r' rs =>
      have hcons := Objects.cons r.entry_record hfields (ih (List.cons_ne_nil r' rs))
      simp only [List.map_cons, Text.joinWith, objectLines_eq, List.append_assoc] at hcons ⊢
      exact hcons

/-- **The rows of a report are listed as an array of their entries.** -/
theorem listing_arrayLines (rs : List Row) :
    Listing rs (arrayLines .report (rs.map Row.record) ++ "\n") := by
  cases rs with
  | nil => exact .nil
  | cons r rs =>
    have hend : ("\n]" ++ "\n" : Text) = "\n" ++ "]\n" := by decide
    have harray := Listing.array (objects_joinWith (List.cons_ne_nil r rs))
    have hlines : arrayLines .report ((r :: rs).map Row.record) = "[\n" ++
        Text.joinWith ",\n" (((r :: rs).map Row.record).map (objectLines .report)) ++ "\n]" := rfl
    rw [hlines, List.append_assoc, hend, ← List.append_assoc, List.append_assoc (Text.ofString "[\n")]
    exact harray

end Slang.Json
