import Slang.Proofs.Growth

/-!
# Descriptors of signatures

The descriptor of a function has those of its parameters one after the other, with nothing between
them, and they are of different lengths. It can be read back all the same: each of them is known by
its first letter, and no letter is the closing parenthesis. So functions have the same descriptor if
and only if they have the same types.

This needs that no parameter has an empty descriptor, which is why a signature is only made from
symbols that have one.

* `Ty.descriptor_append_inj` reads one type, and `Ty.descriptors_append_inj` a list of types;
* `Symbol.ofSymbols_inv` says which signatures are made;
* `Symbol.descriptor_eq_iff` puts this together.
-/

namespace Slang

open Typing

/-! ### Reading types -/

namespace Ty

/-- The byte of the parenthesis that ends the parameters of a signature. -/
def closing : UInt8 := 41

/-- The first letter of a descriptor tells the type. -/
theorem eq_of_head?_descriptor {a b : Ty} (ha : a.descriptor ≠ [])
    (h : a.descriptor.head? = b.descriptor.head?) : a = b := by
  -- only types without a descriptor have no first letter
  cases a with
  | function | invalid | unknown => exact absurd rfl ha
  | int | bool | string | void =>
    cases b with
    | unknown => exact absurd h (Option.some_ne_none _)
    | _ => revert h; decide

theorem head?_descriptor_ne_closing (a : Ty) : a.descriptor.head? ≠ some closing := by
  cases a with
  | unknown => exact (Option.some_ne_none _).symm
  | _ => decide

/-- **Reading one type**: no descriptor begins another one. -/
theorem descriptor_append_inj {a b : Ty} {s t : Text} (ha : a.descriptor ≠ [])
    (hb : b.descriptor ≠ []) (h : a.descriptor ++ s = b.descriptor ++ t) : a = b ∧ s = t := by
  have hfirst : (a.descriptor ++ s).head? = a.descriptor.head? :=
    List.head?_append_of_ne_nil _ ha
  have hhead : a.descriptor.head? = b.descriptor.head? := by
    rw [← hfirst, h, List.head?_append_of_ne_nil _ hb]
  obtain rfl := eq_of_head?_descriptor ha hhead
  exact ⟨rfl, List.append_cancel_left h⟩

/-- A list of types is at its end where the parenthesis is. -/
theorem descriptor_append_ne_closing {a : Ty} {s t : Text} (ha : a.descriptor ≠ []) :
    a.descriptor ++ s ≠ closing :: t := by
  intro h
  refine head?_descriptor_ne_closing a ?_
  have hfirst : (a.descriptor ++ s).head? = a.descriptor.head? :=
    List.head?_append_of_ne_nil _ ha
  rw [← hfirst, h, List.head?_cons]

/-- **Reading the types of parameters**, up to the closing parenthesis. -/
theorem descriptors_append_inj {as bs : List Ty} {s t : Text} (ha : ∀ a ∈ as, a.descriptor ≠ [])
    (hb : ∀ b ∈ bs, b.descriptor ≠ [])
    (h : as.flatMap descriptor ++ closing :: s = bs.flatMap descriptor ++ closing :: t) :
    as = bs ∧ s = t := by
  induction as generalizing bs with
  | nil =>
    cases bs with
    | nil => exact ⟨rfl, (List.cons.inj h).2⟩
    | cons b bs =>
      rw [List.flatMap_cons, List.append_assoc] at h
      exact absurd h.symm (descriptor_append_ne_closing (hb b List.mem_cons_self))
  | cons a as ih =>
    rw [List.forall_mem_cons] at ha
    rw [List.flatMap_cons, List.append_assoc] at h
    cases bs with
    | nil => exact absurd h (descriptor_append_ne_closing ha.1)
    | cons b bs =>
      rw [List.forall_mem_cons] at hb
      rw [List.flatMap_cons, List.append_assoc] at h
      obtain ⟨rfl, hrest⟩ := descriptor_append_inj ha.1 hb.1 h
      obtain ⟨rfl, rfl⟩ := ih ha.2 hb.2 hrest
      exact ⟨rfl, rfl⟩

end Ty

/-! ### Signatures -/

/-- A symbol as the parameter of a function. -/
def Param.ofSymbol (id : SymbolId) (s : Symbol) : Param := ⟨id, s.name, s.ty⟩

namespace Symbol

/-- **A function whose parameters are symbols**, some of which may not be there. -/
def ofSymbols (name : Text) (line : Int) (params : List (Option (SymbolId × Symbol))) (result : Ty)
    (inferred : Bool) : Except SymbolError Symbol :=
  ofSignature name line (params.map (Option.map fun p => .ofSymbol p.1 p.2)) result inferred

/-- The type of the result of a function; a variable has none. -/
def result? (s : Symbol) : Option Ty :=
  match s.content with
  | .function _ result => some result
  | .variable .. => none

/-- Parameters that pass are variables, of types that variables have. -/
theorem checkParams_inv {function : Text} {index : Nat} {params : List (Option (SymbolId × Symbol))}
    {ps : List Param}
    (h : checkParams function index (params.map (Option.map fun p => .ofSymbol p.1 p.2)) =
      .ok ps) : ∀ p ∈ ps, IsValue p.ty := by
  induction params generalizing index ps with
  | nil =>
    obtain rfl := Except.ok.inj h
    exact List.forall_mem_nil _
  | cons p params ih =>
    cases p with
    | none => cases h
    | some p =>
      rw [List.map_cons, Option.map_some, checkParams] at h
      split at h
      · cases h
      · next hty =>
        obtain ⟨qs, hqs, rfl⟩ := Analysis.exists_of_map_eq_ok h
        refine List.forall_mem_cons.mpr ⟨?_, ih hqs⟩
        -- a symbol that is not a variable is a function, and those were refused
        obtain ⟨id, s⟩ := p
        change IsValue s.ty
        unfold Symbol.ty
        cases hc : s.content with
        | «variable» v calculated => exact isValue_ty v
        | function => exact absurd (.inl (by simp [Param.ofSymbol, Symbol.ty, hc])) hty

/-- **Signatures that are made**: the parameters are variables, and the result is a value or
nothing. -/
theorem ofSymbols_inv {name : Text} {line : Int} {params : List (Option (SymbolId × Symbol))}
    {result : Ty} {inferred : Bool} {f : Symbol}
    (h : ofSymbols name line params result inferred = .ok f) :
    f.content = .function f.params result ∧ (∀ p ∈ f.params, IsValue p.ty) ∧
      (IsValue result ∨ result = .void) := by
  unfold ofSymbols ofSignature at h
  split at h
  · next hresult =>
    obtain ⟨ps, hps, rfl⟩ := Analysis.exists_of_map_eq_ok h
    exact ⟨rfl, checkParams_inv hps, Analysis.isValue_or_void_of_isReturnable hresult⟩
  · cases h

/-- The descriptor of a signature says nothing but its types. -/
theorem signatureDescriptor_eq (ps : List Param) (r : Ty) :
    signatureDescriptor ps r = Text.ofString "(" ++
      ((ps.map (·.ty)).flatMap Ty.descriptor ++ Ty.closing :: r.descriptor) := by
  rw [List.flatMap_map]
  simp only [signatureDescriptor, List.append_assoc]
  rfl

/-- **Reading a signature.** -/
theorem signatureDescriptor_inj {ps qs : List Param} {r r' : Ty} (hp : ∀ p ∈ ps, IsValue p.ty)
    (hq : ∀ q ∈ qs, IsValue q.ty) (hr : IsValue r ∨ r = .void) (hr' : IsValue r' ∨ r' = .void)
    (h : signatureDescriptor ps r = signatureDescriptor qs r') :
    ps.map (·.ty) = qs.map (·.ty) ∧ r = r' := by
  have hvalue : ∀ {ty : Ty}, IsValue ty → ty.descriptor ≠ [] := by
    rintro ty (_ | _ | _) <;> decide
  have hresult : ∀ {ty : Ty}, IsValue ty ∨ ty = .void → ty.descriptor ≠ [] := by
    rintro ty (hty | rfl)
    · exact hvalue hty
    · decide
  rw [signatureDescriptor_eq, signatureDescriptor_eq] at h
  obtain ⟨htypes, hrest⟩ := Ty.descriptors_append_inj
    (List.forall_mem_map.mpr fun p hmem => hvalue (hp p hmem))
    (List.forall_mem_map.mpr fun q hmem => hvalue (hq q hmem)) (List.append_cancel_left h)
  -- nothing follows the type of the result
  exact ⟨htypes, (Ty.descriptor_append_inj (hresult hr) (hresult hr')
    (congrArg (· ++ []) hrest)).1⟩

/-- **Descriptors identify signatures.** Two functions that are made from symbols, any number of
them, have the same descriptor if and only if the types of their parameters are the same, in order,
and so are the types of their results. -/
theorem descriptor_eq_iff {name name' : Text} {line line' : Int}
    {params params' : List (Option (SymbolId × Symbol))} {result result' : Ty}
    {inferred inferred' : Bool} {f g : Symbol}
    (hf : ofSymbols name line params result inferred = .ok f)
    (hg : ofSymbols name' line' params' result' inferred' = .ok g) :
    f.descriptor = g.descriptor ↔
      f.params.map (·.ty) = g.params.map (·.ty) ∧ f.result? = g.result? := by
  obtain ⟨hfc, hfparams, hfresult⟩ := ofSymbols_inv hf
  obtain ⟨hgc, hgparams, hgresult⟩ := ofSymbols_inv hg
  have hfr : f.result? = some result := by rw [result?, hfc]
  have hgr : g.result? = some result' := by rw [result?, hgc]
  have hfd : f.descriptor = signatureDescriptor f.params result := by rw [descriptor, hfc]
  have hgd : g.descriptor = signatureDescriptor g.params result' := by rw [descriptor, hgc]
  rw [hfr, hgr, hfd, hgd, Option.some_inj]
  constructor
  · exact signatureDescriptor_inj hfparams hgparams hfresult hgresult
  · rintro ⟨htypes, rfl⟩
    rw [signatureDescriptor_eq, signatureDescriptor_eq, htypes]

/-- The names of a function and of its parameters play no part in its descriptor, but the order of
the parameters does. -/
theorem descriptor_renamed_reordered :
    let number := Symbol.ofValue "a" 1 (.int 0) false
    let text := Symbol.ofValue "b" 1 (.str []) false
    let other := Symbol.ofValue "c" 4 (.int 7) true
    ∃ f g h, ofSymbols "f" 1 [some (0, number), some (1, text)] .bool false = .ok f ∧
      ofSymbols "g" 4 [some (2, other), some (1, text)] .bool true = .ok g ∧
      ofSymbols "h" 9 [some (1, text), some (0, number)] .bool false = .ok h ∧
      f.descriptor = g.descriptor ∧ f.descriptor ≠ h.descriptor := by
  intro number text other
  obtain ⟨f, hf⟩ : ∃ f, ofSymbols "f" 1 [some (0, number), some (1, text)] .bool false = .ok f :=
    ⟨_, rfl⟩
  obtain ⟨g, hg⟩ : ∃ g, ofSymbols "g" 4 [some (2, other), some (1, text)] .bool true = .ok g :=
    ⟨_, rfl⟩
  obtain ⟨h, hh⟩ : ∃ h, ofSymbols "h" 9 [some (1, text), some (0, number)] .bool false = .ok h :=
    ⟨_, rfl⟩
  refine ⟨f, g, h, hf, hg, hh, (descriptor_eq_iff hf hg).mpr ?_, mt (descriptor_eq_iff hf hh).mp ?_⟩
  · obtain rfl := Except.ok.inj hf
    obtain rfl := Except.ok.inj hg
    exact ⟨rfl, rfl⟩
  · obtain rfl := Except.ok.inj hf
    obtain rfl := Except.ok.inj hh
    exact fun hsame => absurd hsame.1 (by decide)

end Symbol
end Slang
