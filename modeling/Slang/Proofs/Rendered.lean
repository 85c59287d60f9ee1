import Slang.Proofs.Rendered.Grid
import Slang.Proofs.Rendered.Json
import Slang.Proofs.Rendered.Yaml

/-!
# What a listing shows

Rows are listed as a grid, as JSON or as YAML. What each of these looks like is said by a grammar of its own
(`Grid`, `Json.Listing` and `Yaml.Listing`), and every rendering of rows follows the grammar of its format
(`rendering_render`): it has an entry for each row, in order, with all that the row says. So nothing is ever
left out, and even the listing of no rows is not empty (`Rendering.ne_nil`).
-/

namespace Slang.Report

/-- **A rendering of rows in a format.** -/
inductive Rendering : Format → List Row → Text → Prop where
  | table {rs : List Row} {out : Text} (h : Grid rs out) : Rendering .table rs out
  | json {rs : List Row} {out : Text} (h : Json.Listing rs out) : Rendering .json rs out
  | yaml {rs : List Row} {out : Text} (h : Yaml.Listing rs out) : Rendering .yaml rs out

/-- **What is rendered is a rendering of the rows**, in every format. -/
theorem rendering_render (f : Format) (rs : List Row) : Rendering f rs (render f (some rs)) := by
  cases f with
  | table => exact .table (grid_grid rs)
  | json => exact .json (Json.listing_arrayLines rs)
  | yaml => exact .yaml (Yaml.listing_sequence rs)

/-- **A rendering is never empty.** -/
theorem Rendering.ne_nil {f : Format} {rs : List Row} {out : Text} (h : Rendering f rs out) : out ≠ [] := by
  cases h with
  | table h =>
    cases h with
    | nil => exact List.cons_ne_nil _ _
    | rows _ _ _ _ _ => exact List.append_ne_nil_of_right_ne_nil _ (List.cons_ne_nil _ _)
  | json h =>
    cases h with
    | nil => exact List.cons_ne_nil _ _
    | array _ => exact List.append_ne_nil_of_right_ne_nil _ (List.cons_ne_nil _ _)
  | yaml h =>
    cases h with
    | nil => exact List.cons_ne_nil _ _
    | sequence h => exact h.ne_nil

end Slang.Report
