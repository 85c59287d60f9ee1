import Slang.Proofs.Grammar.Complete
import Slang.Proofs.Recovery.Statements

/-!
# Errors stay where they are

Reading goes on after a syntax error, and what comes after is read as if it stood alone. This holds
for three shapes of tokens, with and without errors in them:

* `Terminated`: anything that could be one statement, up to its semicolon;
* `Malformed`: a function whose header is not one, with any braces around its body;
* `Flat`: a function whose body has no blocks.

Tokens of such a shape followed by others are read as the two are read one after the other
(`program_append`). The end of the tokens may be different for each: no reader gets so far.
-/

namespace Slang.Parser

open Grammar
open Reply (Stays)

variable {eof eof' s t brace close : Token} {ts us inner header rest rest' : List Token}

/-! ### Three shapes -/

/-- A token at which no statement ends or starts for sure. -/
def Inert (t : Token) : Prop := t.kind ∉ [.semicolon, .lbrace, .rbrace, .kwLet, .kwFn]

/-- **What could be one statement**: any tokens up to the first semicolon, with or without the
keyword of a declaration in front. -/
inductive Terminated : List Token → Prop
  | plain {semi : Token} {ts : List Token} (hts : ∀ t ∈ ts, Inert t)
      (hsemi : semi.kind = .semicolon) : Terminated (ts ++ [semi])
  | declaration {t semi : Token} {ts : List Token} (ht : t.kind = .kwLet)
      (hts : ∀ t ∈ ts, Inert t) (hsemi : semi.kind = .semicolon) :
      Terminated (t :: (ts ++ [semi]))

/-- **A header**: what stands between the keyword of a function and its opening brace. -/
inductive Header : List Token → Prop
  | mk {name lparen : Token} {ts us : List Token} {params : List ParamDecl}
      {type : Option TypeNode} (hname : name.kind = .ident) (hlparen : lparen.kind = .lparen)
      (hparams : Listed Parameter ts params) (htype : OptionalType us type) :
      Header (name :: lparen :: (ts ++ us))

/-- **Tokens with balanced braces.** -/
inductive Balanced : List Token → Prop
  | nil : Balanced []
  | cons {t : Token} {ts : List Token} (hopen : t.kind ≠ .lbrace) (hclose : t.kind ≠ .rbrace)
      (h : Balanced ts) : Balanced (t :: ts)
  | group {t close : Token} {ts us : List Token} (ht : t.kind = .lbrace) (hts : Balanced ts)
      (hclose : close.kind = .rbrace) (hus : Balanced us) : Balanced (t :: (ts ++ close :: us))

/-- **A function with a malformed header**, and whatever stands in its braces. -/
inductive Malformed : List Token → Prop
  | mk {t brace close : Token} {header inner : List Token} (ht : t.kind = .kwFn)
      (hkinds : ∀ u ∈ header, u.kind ∉ [.lbrace, .rbrace, .kwLet, .kwFn])
      (hheader : ¬Header header) (hbrace : brace.kind = .lbrace) (hinner : Balanced inner)
      (hclose : close.kind = .rbrace) : Malformed (t :: (header ++ brace :: (inner ++ [close])))

/-- **A function without blocks**, whatever else stands in its body. -/
inductive Flat : List Token → Prop
  | mk {t brace close : Token} {header inner : List Token} (ht : t.kind = .kwFn)
      (hheader : Header header) (hbrace : brace.kind = .lbrace)
      (hinner : ∀ u ∈ inner, u.kind ∉ [.lbrace, .rbrace, .kwFn])
      (hclose : close.kind = .rbrace) : Flat (t :: (header ++ brace :: (inner ++ [close])))

/-! ### One statement and the rest -/

/-- Statements and errors, one after the other. -/
def Result.append (r r' : Result) : Result := ⟨r.program ++ r'.program, r.faults ++ r'.faults⟩

instance : Append Result := ⟨Result.append⟩

/-- **The same top-level statement**, with and without more tokens after it, which takes all tokens
that are not among them. -/
abbrev Detached (eof eof' t : Token) (ts rest : List Token) : Prop :=
  Parsed.Stays (· = ts.length + 1) (topLevel eof' t ts) (topLevel eof t (ts ++ rest))

/-- A statement that takes all tokens is the whole program. -/
theorem program_of_taken (h : (topLevel eof t ts).taken = ts.length + 1) :
    program eof (t :: ts) = ⟨(topLevel eof t ts).node.toList, (topLevel eof t ts).faults⟩ := by
  have hmax : max (topLevel eof t ts).taken 1 = (t :: ts).length := by
    rw [h, List.length_cons]
    omega
  rw [program, hmax, List.drop_length, program]
  dsimp only
  rw [List.append_nil, List.append_nil]

theorem program_of_detached (h : Detached eof eof' t ts rest) :
    program eof (t :: ts ++ rest) = program eof' (t :: ts) ++ program eof rest := by
  have hmax : max (topLevel eof t (ts ++ rest)).taken 1 = (t :: ts).length := by
    rw [h.same, h.ends, List.length_cons]
    omega
  rw [program_of_taken h.ends, List.cons_append, program, hmax, ← List.cons_append, List.drop_left,
    h.same]
  rfl

/-! ### Up to a semicolon -/

theorem Inert.ends (h : Inert t) : t.kind ≠ .semicolon ∧ t.kind ≠ .rbrace := by
  simp only [Inert, List.mem_cons, not_or] at h
  exact ⟨h.1, h.2.2.1⟩

theorem Inert.starts (h : Inert t) : t.kind ≠ .kwLet ∧ t.kind ≠ .kwFn := by
  simp only [Inert, List.mem_cons, not_or] at h
  exact ⟨h.2.2.2.1, h.2.2.2.2.1⟩

/-- A semicolon alone is passed over. -/
theorem detached_semicolon {semi : Token} (hsemi : semi.kind = .semicolon) (rest : List Token) :
    Detached eof eof' semi [] rest := by
  have htop : ∀ eof rest, topLevel eof semi rest =
      ⟨none, [semi.fault (.unexpectedStart semi.kind semi.literal)], 1⟩ := fun eof rest => by
    unfold topLevel
    rw [hsemi]
    simp [Parsed.dropped, resync, hsemi]
  refine ⟨?_, ?_⟩
  · rw [htop, htop]
  · rw [htop]
    rfl

theorem detached_of_border {semi : Token} (heof : eof.kind = .eof) (heof' : eof'.kind = .eof)
    (hsemi : semi.kind = .semicolon) (ht : t.kind ≠ .semicolon ∧ t.kind ≠ .rbrace)
    (hfn : t.kind ≠ .kwFn) (hts : ∀ u ∈ ts, Inert u) (rest : List Token) :
    Detached eof eof' t (ts ++ [semi]) rest := by
  have hborder : Border (t :: ts) semi (· = (t :: ts).length + 1) :=
    border_semicolon hsemi (List.forall_mem_cons.mpr ⟨ht, fun u hu => (hts u hu).ends⟩)
      fun u hu => (hts u hu).starts
  unfold Detached
  rw [List.append_assoc, List.singleton_append, List.length_append]
  exact topLevel_stays ⟨heof', heof, .inl hsemi⟩ hborder hfn

theorem Terminated.detached (heof : eof.kind = .eof) (heof' : eof'.kind = .eof)
    (h : Terminated ts) (rest : List Token) :
    ∃ t us, ts = t :: us ∧ Detached eof eof' t us rest := by
  cases h with
  | @plain semi us hus hsemi =>
    cases us with
    | nil => exact ⟨semi, [], rfl, detached_semicolon hsemi rest⟩
    | cons t us =>
      have ht := hus t List.mem_cons_self
      exact ⟨t, us ++ [semi], rfl, detached_of_border heof heof' hsemi ht.ends ht.starts.2
        (fun u hu => hus u (List.mem_cons_of_mem t hu)) rest⟩
  | @declaration t semi us ht hus hsemi =>
    exact ⟨t, us ++ [semi], rfl, detached_of_border heof heof' hsemi (by rw [ht]; decide)
      (by rw [ht]; decide) hus rest⟩

/-! ### Functions with a malformed header -/

/-- Balanced tokens do not change how many braces are open. -/
theorem skipBraces_of_balanced (h : Balanced ts) (depth : Nat) (rest : List Token) :
    skipBraces (depth + 1) (ts ++ rest) = skipBraces (depth + 1) rest + ts.length := by
  induction h generalizing depth rest with
  | nil => rfl
  | cons hopen hclose h ih =>
    rw [List.cons_append, skipBraces, if_neg hopen, if_neg hclose,
      if_neg (Nat.succ_ne_zero depth), ih, List.length_cons, Nat.add_assoc]
  | @group t close ts us ht hts hclose hus ihts ihus =>
    have hne : close.kind ≠ .lbrace := by rw [hclose]; decide
    rw [List.cons_append, List.append_assoc, skipBraces, if_pos ht, if_neg (Nat.succ_ne_zero _),
      ihts, List.cons_append, skipBraces, if_neg hne, if_pos hclose, Nat.add_sub_cancel,
      if_neg (Nat.succ_ne_zero depth), ihus, List.length_cons, List.length_append,
      List.length_cons]
    omega

/-- The braces around balanced tokens are found, and nothing after them is looked at. -/
theorem skipBraces_group (hbrace : brace.kind = .lbrace) (hinner : Balanced inner)
    (hclose : close.kind = .rbrace) (rest : List Token) :
    skipBraces 0 (brace :: (inner ++ close :: rest)) = inner.length + 2 := by
  have hne : close.kind ≠ .lbrace := by rw [hclose]; decide
  rw [skipBraces, if_pos hbrace, if_neg (Nat.succ_ne_zero 0), skipBraces_of_balanced hinner,
    skipBraces, if_neg hne, if_pos hclose, Nat.add_sub_cancel, if_pos rfl]
  omega

/-- A header is passed over up to its brace. -/
theorem skipFunction_of_header (hbrace : brace.kind = .lbrace) (rest : List Token) :
    ∀ us : List Token, (∀ u ∈ us, u.kind ∉ [.lbrace, .rbrace, .kwLet, .kwFn]) →
      skipFunction (us ++ brace :: rest) = us.length + skipBraces 0 (brace :: rest)
  | [], _ => by rw [List.nil_append, skipFunction, if_pos hbrace, List.length_nil, Nat.zero_add]
  | u :: us, hus => by
    obtain ⟨hlbrace, -, hlet, hfn⟩ : u.kind ≠ .lbrace ∧ u.kind ≠ .rbrace ∧ u.kind ≠ .kwLet ∧
        u.kind ≠ .kwFn := by
      simpa using hus u List.mem_cons_self
    have hstart : ¬(u.kind = .kwLet ∨ (u.kind = .kwFn ∧ nextIs .ident (us ++ brace :: rest))) :=
      fun h => h.elim hlet fun h => hfn h.1
    rw [List.cons_append, skipFunction, if_neg hlbrace, if_neg hstart,
      skipFunction_of_header hbrace rest us fun v hv => hus v (List.mem_cons_of_mem u hv),
      List.length_cons]
    omega

/-- Only a header is read as one. -/
theorem header_of_fnHead (heof : eof.kind = .eof) (ht : t.kind = .kwFn)
    (hkinds : ∀ u ∈ header, u.kind ∉ [.lbrace, .rbrace, .kwLet, .kwFn])
    {x : FnHead × Token} {k : Nat} (hk : k ≤ header.length + 2)
    (h : fnHead eof t (header ++ brace :: rest) = .ok x k) : Header header := by
  obtain ⟨ls, rs, hsplit, hlen, hhead⟩ := fnHead_reads heof t _ x k h
  cases hhead with
  | @mk name lparen brace' ts us type params hname hlparen hparams htype hbrace' =>
    have hls : t :: name :: lparen :: (ts ++ (us ++ [brace'])) =
        (t :: name :: lparen :: (ts ++ us)) ++ [brace'] := by simp
    rw [hls] at hsplit hlen
    rw [List.append_assoc, List.singleton_append] at hsplit
    rw [List.length_append, List.length_singleton] at hlen
    -- the brace that was read is not in front of the one that ends the header, and not after it
    obtain ⟨mid, hmid, hrest⟩ | ⟨mid, hmid, hrest⟩ :=
      List.append_eq_append_iff.mp (show (t :: header) ++ brace :: rest = _ from hsplit)
    · cases mid with
      | nil =>
        rw [List.append_nil] at hmid
        rw [← (List.cons.inj hmid).2]
        exact .mk hname hlparen hparams htype
      | cons u mid =>
        have hlong := congrArg List.length hmid
        simp only [List.length_append, List.length_cons] at hlong hlen
        omega
    · cases mid with
      | nil =>
        rw [List.append_nil] at hmid
        rw [(List.cons.inj hmid).2]
        exact .mk hname hlparen hparams htype
      | cons u mid =>
        obtain rfl : brace' = u := (List.cons.inj hrest).1
        have hmem : brace' ∈ t :: header := by
          rw [hmid]
          exact List.mem_append_right _ List.mem_cons_self
        rcases List.mem_cons.mp hmem with rfl | hmem
        · rw [ht] at hbrace'
          cases hbrace'
        · exact absurd (by rw [hbrace']; decide) (hkinds brace' hmem)

/-- A header that fails right at the keyword has no name. -/
theorem nextIs_of_fnHead {f : Fault} (h : fnHead eof t rest = .fail f 0) :
    nextIs .ident rest = false := by
  cases rest with
  | nil => rfl
  | cons name rest =>
    refine nextIs_cons_of_ne (fun hname => ?_) rest
    have hsecond : expectSecond eof .ident (t :: name :: rest) = .ok name 2 := if_pos hname
    unfold fnHead at h
    simp only [hsecond] at h
    -- with a name, what is left is read after the keyword
    generalize Reply.andThen _ _ _ = r at h
    cases r with
    | ok x k => cases h
    | fail g k =>
      have hk : 1 + k = 0 := (Reply.fail.inj h).2
      omega

section
variable (ht : t.kind = .kwFn)
  (hkinds : ∀ u ∈ header, u.kind ∉ [.lbrace, .rbrace, .kwLet, .kwFn])
  (hbrace : brace.kind = .lbrace) (hinner : Balanced inner) (hclose : close.kind = .rbrace)
include ht hkinds hbrace hinner hclose

/-- Wherever a header fails, its body is passed over and nothing more. -/
theorem skipFunction_of_fail {k : Nat} (hk : k ≤ header.length + 1)
    (hname : k = 0 → nextIs .ident (header ++ brace :: (inner ++ close :: rest)) = false) :
    k + skipFunction ((t :: (header ++ brace :: (inner ++ close :: rest))).drop k) =
      header.length + inner.length + 3 := by
  have hbody := skipBraces_group hbrace hinner hclose rest
  cases k with
  | zero =>
    -- the keyword itself would end the search if a name followed it
    have hstart : ¬(t.kind = .kwLet ∨
        (t.kind = .kwFn ∧ nextIs .ident (header ++ brace :: (inner ++ close :: rest)))) := by
      rw [hname rfl, ht]
      decide
    rw [List.drop_zero, skipFunction, if_neg (by rw [ht]; decide), if_neg hstart,
      skipFunction_of_header hbrace _ header hkinds, hbody]
    omega
  | succ k =>
    have hk' : k ≤ header.length := Nat.le_of_succ_le_succ hk
    rw [List.drop_succ_cons, List.drop_append_of_le_length hk',
      skipFunction_of_header hbrace _ _ fun u hu => hkinds u (List.mem_of_mem_drop hu), hbody,
      List.length_drop]
    omega

/-- A malformed header gives one error, and the body goes with it. -/
theorem topLevel_of_malformed (heof : eof.kind = .eof) (heof' : eof'.kind = .eof)
    (hheader : ¬Header header) :
    ∃ f, topLevel eof t (header ++ brace :: (inner ++ close :: rest)) =
        ⟨none, [f], header.length + inner.length + 3⟩ ∧
      topLevel eof' t (header ++ brace :: (inner ++ close :: rest')) =
        ⟨none, [f], header.length + inner.length + 3⟩ := by
  -- reading the head stops before the brace, so that it does not see what comes after the function
  have hhead : Stays 1 (t :: header) (fnHead eof t (header ++ brace :: (inner ++ close :: rest)))
      (fnHead eof' t (header ++ brace :: (inner ++ close :: rest'))) :=
    fnHead_stays ⟨heof, heof', .inr (.inl hbrace)⟩ t
  unfold topLevel function
  rw [ht]
  dsimp only
  generalize hr : fnHead eof t (header ++ brace :: (inner ++ close :: rest)) = r at hhead
  generalize hr' : fnHead eof' t (header ++ brace :: (inner ++ close :: rest')) = r' at hhead
  cases hhead with
  | ok x hk => exact absurd (header_of_fnHead heof ht hkinds hk hr) hheader
  | @fail f k hk =>
    refine ⟨f, ?_, ?_⟩
    · refine congrArg (Parsed.mk none [f]) ?_
      refine skipFunction_of_fail ht hkinds hbrace hinner hclose hk fun hzero => ?_
      exact nextIs_of_fnHead (hzero ▸ hr)
    · refine congrArg (Parsed.mk none [f]) ?_
      refine skipFunction_of_fail ht hkinds hbrace hinner hclose hk fun hzero => ?_
      exact nextIs_of_fnHead (hzero ▸ hr')

end

/-- **A function with a bad head** is one error and nothing else, whatever follows it. -/
theorem Malformed.detached (heof : eof.kind = .eof) (heof' : eof'.kind = .eof) (h : Malformed ts)
    (rest : List Token) :
    ∃ t us f n, ts = t :: us ∧ Detached eof eof' t us rest ∧
      topLevel eof' t us = ⟨none, [f], n⟩ := by
  cases h with
  | @mk t brace close header inner ht hkinds hheader hbrace hinner hclose =>
    have happ : (header ++ brace :: (inner ++ [close])) ++ rest =
        header ++ brace :: (inner ++ close :: rest) := by simp
    -- everything up to the closing brace is skipped
    have hlen : header.length + inner.length + 3 =
        (header ++ brace :: (inner ++ [close])).length + 1 := by
      simp only [List.length_append, List.length_cons, List.length_nil]
      omega
    obtain ⟨f, htop, htop'⟩ :=
      topLevel_of_malformed ht hkinds hbrace hinner hclose heof heof' hheader
    refine ⟨t, _, f, _, rfl, ⟨?_, ?_⟩, htop'⟩
    · rw [happ, htop, htop']
    · rw [htop']
      exact hlen

/-! ### Functions without blocks -/

/-- A header is read up to its brace, whatever follows. -/
theorem fnHead_of_header (t : Token) (h : Header header) (hbrace : brace.kind = .lbrace) :
    ∃ head : FnHead, ∀ eof rest,
      fnHead eof t (header ++ brace :: rest) = .ok (head, brace) (header.length + 2) := by
  cases h with
  | @mk name lparen ts us params type hname hlparen hparams htype =>
    obtain ⟨parts, mid, rparen, rfl, rfl, hparts, hmid, hrparen⟩ := hparams
    refine ⟨⟨t, ⟨name, name.literal⟩, parts.map Prod.snd, type⟩, fun eof rest => ?_⟩
    have happ : name :: lparen :: (mid ++ [rparen] ++ us) ++ brace :: rest =
        name :: lparen :: (mid ++ rparen :: (us ++ brace :: rest)) := by simp
    have hlen : (name :: lparen :: (mid ++ [rparen] ++ us)).length + 2 =
        mid.length + us.length + 5 := by
      simp only [List.length_cons, List.length_append, List.length_nil]
      omega
    rw [happ, hlen]
    exact fnHead_complete eof hname hlparen hparts hmid hrparen htype hbrace rest

/-- A function without inner blocks is read the same, whatever follows it. -/
theorem Flat.detached (heof : eof.kind = .eof) (heof' : eof'.kind = .eof) (h : Flat ts)
    (rest : List Token) : ∃ t us, ts = t :: us ∧ Detached eof eof' t us rest := by
  cases h with
  | @mk t brace close header inner ht hheader hbrace hinner hclose =>
    obtain ⟨head, hhead⟩ := fnHead_of_header t hheader hbrace
    have happ : (header ++ brace :: (inner ++ [close])) ++ rest =
        header ++ brace :: (inner ++ close :: rest) := by simp
    have hdrop : ∀ us, (t :: (header ++ brace :: us)).drop (header.length + 2) = us := fun us => by
      simp
    -- the closing brace of the function stops the reading of its body
    have hbody := body_stays ⟨heof', heof, .inr (.inr hclose)⟩ hclose 1 [] rest inner hinner
    refine ⟨t, _, rfl, ?_⟩
    unfold Detached topLevel function
    rw [happ, ht]
    dsimp only
    rw [hhead, hhead]
    dsimp only
    rw [hdrop, hdrop, hbody.same]
    refine ⟨rfl, ?_⟩
    dsimp only
    rw [hbody.taken]
    simp only [List.length_append, List.length_cons, List.length_nil]
    omega

/-! ### All three -/

/-- **Syntax errors are contained.** Tokens of one of the three shapes followed by any others are
read as the two are read on their own: their statements and their errors come first, and then those
of the rest. A function with a malformed header is dropped with one error. -/
theorem program_append (eof eof' : Token) (heof : eof.kind = .eof) (heof' : eof'.kind = .eof)
    (h : Terminated ts ∨ Malformed ts ∨ Flat ts) (rest : List Token) :
    program eof (ts ++ rest) = program eof' ts ++ program eof rest ∧
      (Malformed ts → ∃ f, program eof' ts = ⟨[], [f]⟩) := by
  refine ⟨?_, fun hmalformed => ?_⟩
  · rcases h with h | h | h
    · obtain ⟨t, us, rfl, hdetached⟩ := h.detached heof heof' rest
      exact program_of_detached hdetached
    · obtain ⟨t, us, -, -, rfl, hdetached, -⟩ := h.detached heof heof' rest
      exact program_of_detached hdetached
    · obtain ⟨t, us, rfl, hdetached⟩ := h.detached heof heof' rest
      exact program_of_detached hdetached
  · obtain ⟨t, us, f, n, rfl, hdetached, htop⟩ := hmalformed.detached heof heof' rest
    refine ⟨f, ?_⟩
    rw [program_of_taken hdetached.ends, htop]
    rfl

/-- A function without parameters, `fn f { }`. -/
def headless : List Token :=
  [⟨.kwFn, "fn", ⟨1, 1⟩⟩, ⟨.ident, "f", ⟨1, 4⟩⟩, ⟨.lbrace, "\x7b", ⟨1, 6⟩⟩, ⟨.rbrace, "\x7d", ⟨1, 8⟩⟩]

/-- A declaration on the next line, `let x: int;`. -/
def nextLine : List Token :=
  [⟨.kwLet, "let", ⟨2, 1⟩⟩, ⟨.ident, "x", ⟨2, 5⟩⟩, ⟨.colon, ":", ⟨2, 6⟩⟩,
    ⟨.typeLiteral, "int", ⟨2, 8⟩⟩, ⟨.semicolon, ";", ⟨2, 11⟩⟩]

theorem malformed_headless : Malformed headless := by
  -- a name alone is no header
  show Malformed (⟨.kwFn, "fn", ⟨1, 1⟩⟩ :: ([⟨.ident, "f", ⟨1, 4⟩⟩] ++
    ⟨.lbrace, "\x7b", ⟨1, 6⟩⟩ :: ([] ++ [⟨.rbrace, "\x7d", ⟨1, 8⟩⟩])))
  refine .mk rfl (by decide) ?_ rfl .nil rfl
  intro h
  cases h

theorem program_headless_append :
    program ⟨.eof, [], ⟨2, 11⟩⟩ (headless ++ nextLine) =
        program ⟨.eof, [], ⟨1, 8⟩⟩ headless ++ program ⟨.eof, [], ⟨2, 11⟩⟩ nextLine ∧
      ∃ f, program ⟨.eof, [], ⟨1, 8⟩⟩ headless = ⟨[], [f]⟩ := by
  obtain ⟨happend, hmalformed⟩ := program_append ⟨.eof, [], ⟨2, 11⟩⟩ ⟨.eof, [], ⟨1, 8⟩⟩ rfl rfl
    (.inr (.inl malformed_headless)) nextLine
  exact ⟨happend, hmalformed malformed_headless⟩

end Slang.Parser
