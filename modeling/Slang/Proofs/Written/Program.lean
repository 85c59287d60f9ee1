import Slang.Proofs.Causes
import Slang.Proofs.Ready
import Slang.Proofs.Written

/-!
# Which globals the functions of a program write to

`Program.globalWrites` is collected before a program is checked. In a program without errors it is
the set of all globals that some assignment inside a function writes to, as names are resolved while
the program is checked (`mutated_exact_up_to_vague`, up to vague declarations).

What has to be known of each function is that its body begins with its parameters and nothing else
(`Underway.entry`), and that a parameter is no global. The parameters of a function with a written
type are made long before its body is read, so `Underway` keeps this for all functions that are
still to come.
-/

namespace Slang

/-- **A program declares a name vaguely** in the body of a function. -/
def Program.Vague (p : Program) (x : Text) : Prop :=
  ∃ head brace body, Stmt.fn head brace body ∈ p ∧ ∃ s ∈ body, s.Vague x

/-- A source without faults declares nothing vaguely. -/
theorem Parser.not_vague_of_parse {src : Text} (h : (parse src).faults = []) (x : Text) :
    ¬(parse src).program.Vague x := by
  rintro ⟨head, brace, body, hfn, s, hs, hvague⟩
  have hproper := proper_of_parse h _ hfn
  cases hproper with
  | fn hbody => exact (hbody s hs).not_vague x hvague

namespace Analysis

/-- **A function of a program writes to the global variable of a name**: an assignment inside its
body does, at any depth. -/
def WritesGlobal (options : Options) (p : Program) (x : Text) : Prop :=
  ∃ i j place s, site options p (i :: j :: place) = some s ∧ s.writtenGlobal? = some x

/-! ### Entering a function -/

section
variable {ctx : Context} {st : State} {l : List (Stmt × Option Symbol)}

/-- A body begins with its parameters, if they are no globals. -/
theorem within_bodyStart {head : FnHead} {qs : List Param} (declared : Option Ty)
    (hscope : ctx.scope = globalScope) (hglobal : ctx.global = globalScope)
    (hv : st.table.Valid) (hlt : globalScope < st.table.scopes.length)
    (hroot : st.table.chain globalScope = [globalScope]) (hparams : HasParams st.table head qs)
    (hdistinct : DistinctParams [] head.params) (hnodup : (qs.map (·.id)).Nodup)
    (hunbound : ∀ q ∈ qs, q.id ∉ (st.table.namesOf globalScope).map Prod.snd) :
    Within (bodyContext ctx head declared qs st) (bodyStart ctx head declared qs st)
      (qs.map Param.binding) [] where
  global := hglobal
  valid := valid_bodyStart hv (hscope ▸ hlt) head declared qs
  scope_lt := scope_lt_bodyStart ctx head declared qs st
  inside :=
    (inside_bodyStart declared hscope hv hlt hroot hparams hdistinct hnodup hunbound).1

/-- **Each body is read without errors**, from where its parameters are local and nothing else. -/
theorem Underway.entry {head : FnHead} {brace : Option Token} {body : List Stmt}
    {signature : Option Symbol} (h : Underway ctx st ((.fn head brace body, signature) :: l)) :
    ∃ ctx' st' names, bodyEntry ctx st head signature = some (ctx', st') ∧
      Within ctx' st' names [] ∧ names.map Prod.fst = head.params.map (fun q => q.name.name) ∧
      (checkStmts ctx' st' body).Clean := by
  have hclean := h.clean_head
  cases hresult : head.result with
  | none =>
    rw [checkTop_inferred ctx st signature hresult] at hclean
    obtain ⟨st₁, qs, st₂, hmake, hclean₁, rfl, hclean₂, -⟩ := checkInferred_inv h.scope_lt' hclean
    obtain ⟨hdistinct, hmade, hgrown⟩ := makeParams_inv ctx.scope hmake hclean₁
    have hroot : st₁.table.chain globalScope = [globalScope] := by
      rw [hgrown.table.chain_eq h.scope_lt, h.root]
    refine ⟨_, _, qs.map Param.binding, ?_, within_bodyStart none h.scope h.global
      (hgrown.table.valid h.valid) (hgrown.scope_lt h.scope_lt) hroot hmade.hasParams hdistinct
      hmade.nodup (fun q hq => (hmade.free h.valid q hq).unbound),
      hmade.hasParams.map_fst_binding, hclean₂⟩
    unfold bodyEntry
    rw [hresult, hmake]
  | some type =>
    obtain ⟨hdistinct, -, sym, rfl, hparams⟩ :=
      h.signed _ List.mem_cons_self head brace body type rfl hresult
    rw [checkTop_declared ctx st hresult] at hclean
    have hnodup := h.distinct
    rw [List.flatMap_cons] at hnodup
    -- the parameters in the signature are among those that wait
    have hunbound : ∀ q ∈ sym.params, q.id ∉ (st.table.namesOf globalScope).map Prod.snd :=
      fun q hq => (h.pending q.id (List.mem_append_left _ (List.mem_map_of_mem hq))).2
    refine ⟨_, _, sym.params.map Param.binding, ?_, within_bodyStart (some type.ty) h.scope
      h.global h.valid h.scope_lt h.root hparams hdistinct (List.nodup_append.mp hnodup).1
      hunbound, hparams.map_fst_binding, (checkDeclared_inv hclean).1⟩
    unfold bodyEntry
    rw [hresult]

end

/-! ### All functions -/

/-- A place with something in front of it is inside a function. -/
theorem exists_fn_of_siteAmong {ctx : Context} {st : State} {l : List (Stmt × Option Symbol)}
    {i j : Nat} {place : StmtPlace} {s : Site} (h : siteAmong ctx st l (i :: j :: place) = some s) :
    ∃ head brace body signature, l[i]? = some (.fn head brace body, signature) := by
  unfold siteAmong at h
  dsimp only at h
  split at h
  · next hget => exact ⟨_, _, _, _, hget⟩
  · cases h

section
variable {options : Options} {p : Program}

/-- The statements of the second pass are those of the program. -/
theorem getElem?_hoistAll {ctx : Context} {st : State} {i : Nat} {s : Stmt} :
    (∃ signature, (hoistAll ctx st p).2[i]? = some (s, signature)) ↔ p[i]? = some s := by
  have hget : ((hoistAll ctx st p).2[i]?).map Prod.fst = p[i]? := by
    rw [← List.getElem?_map, map_fst_hoistAll]
  rw [← hget, Option.map_eq_some_iff]
  constructor
  · rintro ⟨signature, h⟩
    exact ⟨_, h, rfl⟩
  · rintro ⟨⟨_, signature⟩, h, rfl⟩
    exact ⟨signature, h⟩

/-- **The writes of one function.** -/
theorem fn_agrees (haccepted : Accepted options p) (x : Text) {i : Nat} {head : FnHead}
    {brace : Option Token} {body : List Stmt} (hfn : p[i]? = some (.fn head brace body)) :
    UpTo (p.Vague x) (x ∈ Stmt.freeWritesAll (head.params.map fun q => q.name.name) body)
      (∃ j place s, site options p (i :: j :: place) = some s ∧ s.writtenGlobal? = some x) := by
  obtain ⟨signature, hget⟩ := getElem?_hoistAll.mpr hfn
  obtain ⟨hlt, hget'⟩ := List.getElem?_eq_some_iff.mp hget
  -- before this function the statements in front of it have been read
  have hunderway := (underway_start (accepted_iff.mp haccepted)).drop i
  rw [List.drop_eq_getElem_cons hlt, hget'] at hunderway
  obtain ⟨ctx, st, names, hentry, hwithin, hparams, hclean⟩ := hunderway.entry
  have hsite : ∀ j place, site options p (i :: j :: place) = siteIn (j :: place) ctx st body :=
    siteAmong_of_getElem? _ _ _ hget hentry
  have hlocal : UpTo (p.Vague x) (x ∈ Execution.namesIn [names])
      (x ∈ head.params.map fun q => q.name.name) := by
    rw [← hparams]
    exact .of_iff (by simp [Execution.namesIn])
  refine (freeWrites_agree _ x ctx st names [] _ hwithin hlocal body
    (fun s hs hvague => ⟨head, brace, body, List.mem_of_getElem? hfn, s, hs, hvague⟩)
    hclean).congr Iff.rfl ?_
  simp only [hsite]
  constructor
  · rintro ⟨j, place, s, hs, hwrites⟩
    exact ⟨j :: place, s, hs, hwrites⟩
  · rintro ⟨place, s, hs, hwrites⟩
    cases place with
    | nil => cases hs
    | cons j place => exact ⟨j, place, s, hs, hwrites⟩

/-- The writes of the statement with number `i`: only functions have any. -/
theorem stmt_agrees (haccepted : Accepted options p) (x : Text) (i : Nat) :
    UpTo (p.Vague x) (∃ s, p[i]? = some s ∧ x ∈ s.globalWrites)
      (∃ j place s, site options p (i :: j :: place) = some s ∧ s.writtenGlobal? = some x) := by
  by_cases hfn : ∃ head brace body, p[i]? = some (.fn head brace body)
  · obtain ⟨head, brace, body, hfn⟩ := hfn
    refine (fn_agrees haccepted x hfn).congr ?_ Iff.rfl
    rw [hfn]
    simp [Stmt.globalWrites]
  · refine .of_iff (iff_of_false ?_ ?_)
    · rintro ⟨s, hs, hx⟩
      cases s with
      | fn head brace body => exact hfn ⟨head, brace, body, hs⟩
      | _ => cases hx
    · rintro ⟨j, place, s, hs, -⟩
      obtain ⟨head, brace, body, signature, hget⟩ := exists_fn_of_siteAmong hs
      exact hfn ⟨head, brace, body, getElem?_hoistAll.mp ⟨signature, hget⟩⟩

/-- **The collected names are those of the globals that functions write to**, in a program without
errors. What is collected is written, always; what is written is collected unless its name is
declared vaguely in a function, as no source without faults does (`Parser.not_vague_of_parse`). -/
theorem mutated_exact_up_to_vague (haccepted : Accepted options p) (x : Text) :
    (x ∈ ((Analyzer.new options).analyze (some p)).1.mutated → WritesGlobal options p x) ∧
      (WritesGlobal options p x →
        x ∈ ((Analyzer.new options).analyze (some p)).1.mutated ∨ p.Vague x) := by
  have hmutated : x ∈ ((Analyzer.new options).analyze (some p)).1.mutated ↔
      ∃ (i : Nat) (s : Stmt), p[i]? = some s ∧ x ∈ s.globalWrites := by
    constructor
    · intro hx
      obtain ⟨s, hs, hx⟩ := List.mem_flatMap.mp hx
      obtain ⟨i, hi⟩ := List.mem_iff_getElem?.mp hs
      exact ⟨i, s, hi, hx⟩
    · rintro ⟨i, s, hi, hx⟩
      exact List.mem_flatMap.mpr ⟨s, List.mem_of_getElem? hi, hx⟩
  have hagree := (UpTo.exists_congr (stmt_agrees haccepted x)).congr hmutated Iff.rfl
  exact ⟨hagree.mp, hagree.mpr⟩

end

/-- A function that writes to names before and after it declares them, to a parameter, and to a name
that an inner block had declared. -/
def shadowingSource : Text :=
  "let a = 1; let b = 2; let c = 3; let d = 4;
fn f(a: int): void { a = 5; b = 6; let b = 7; b = 8; { let c = 9; { c = d; } } c = 10; }
"

/-- The globals that such a function writes to. -/
theorem written_shadowingSource :
    Accepted {} (Parser.parse shadowingSource).program ∧
      ∀ x, WritesGlobal {} (Parser.parse shadowingSource).program x ↔
        x ∈ [Text.ofString "b", Text.ofString "c"] := by
  have hparse : (Parser.parse shadowingSource).faults = [] := by decide +kernel
  -- there are warnings, so what was found is looked at before it is sorted
  have hclean : ∀ f ∈ (checkProgram {} (Parser.parse shadowingSource).program.globalWrites
      (Parser.parse shadowingSource).program).trace.filterMap Event.finding?,
      f.what.severity ≠ .error := by decide +kernel
  have haccepted : Accepted {} (Parser.parse shadowingSource).program := accepted_iff.mpr hclean
  have hmutated :
      ((Analyzer.new {}).analyze (some (Parser.parse shadowingSource).program)).1.mutated =
        [Text.ofString "b", Text.ofString "c"] := by decide +kernel
  refine ⟨haccepted, fun x => ?_⟩
  obtain ⟨hwritten, hcollected⟩ := mutated_exact_up_to_vague haccepted x
  rw [← hmutated]
  exact ⟨fun hx => (hcollected hx).resolve_right (Parser.not_vague_of_parse hparse x), hwritten⟩

/-- A source with a declaration that says nothing of the variable. -/
def vagueSource : Text :=
  "let g = 1;
let h = g;
fn f(): void { let g; g = 2; }
"

/-- **Vague declarations part the two.** The declaration without type and value declares nothing, so
the assignment after it writes to the global, which is not collected. -/
theorem not_collected_vagueSource :
    Accepted {} (Parser.parse vagueSource).program ∧
      WritesGlobal {} (Parser.parse vagueSource).program (Text.ofString "g") ∧
      Text.ofString "g" ∉
        ((Analyzer.new {}).analyze (some (Parser.parse vagueSource).program)).1.mutated := by
  refine ⟨by decide +kernel, ?_, by decide +kernel⟩
  have hwritten : (site {} (Parser.parse vagueSource).program [2, 1]).bind Site.writtenGlobal? =
      some (Text.ofString "g") := by decide +kernel
  obtain ⟨s, hs, hx⟩ := Option.bind_eq_some_iff.mp hwritten
  exact ⟨2, 1, [], s, hs, hx⟩

end Analysis
end Slang
