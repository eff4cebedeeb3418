import Descent.Proofs.Matching.Peg
import Descent.Proofs.RuleText.Spelling
import Descent.Proofs.Tree.Values
import Descent.RuleText.Parse

/-!
# Whatever is spelled is read

The grammar of rule texts is matched with ordered choice and greedy options, and
nothing is tried a second way. Still no sentence of the notation is lost: tokens
that spell a part are matched as that part whatever stands after them, as long as
it is nothing that the part would go on with (`RuleText.Spells.isRead`). The
induction is over what is spelled. What it carries is that the match takes the
tokens of the part and no more, that the callbacks turn it into what is spelled,
and that each callback in it is given the values that it is made for.
-/

namespace Descent

namespace RuleText

open Grammar (Peg)

variable {K : Type} [TokenKind K]

/-! ## What callbacks are given -/

/-- **What each callback is made for**: the values that it is given by a match of
its rule. For any other values the callbacks give something empty. -/
inductive Expects : Callback RuleKind (Part K) → List (Arg K) → Prop
  | rule {x : Token RuleKind} {body : Body K} {semicolon : Option (Arg K)} :
      x.kind = .ident →
      Expects readRule [.token x, .out (.body body), .optional semicolon]
  | operatorBody {op : OperatorDeclaration} :
      Expects readOperatorBody [.out (.operator op)]
  | branchesBody {branches : List (List (Clause K))} :
      Expects readBranchesBody [.out (.branches branches)]
  | emptyBody : Expects (fun _ => .body .empty) []
  | operator {word symbol precedence : Token RuleKind} {affix : Affix} :
      Declares word.kind affix → symbol.kind = .ident → precedence.kind = .int →
      Expects readOperator
        [.token word, .token symbol, .optional none, .token precedence]
  | directed {word symbol direction precedence : Token RuleKind} {affix : Affix}
      {associativity : Associativity} :
      Declares word.kind affix → symbol.kind = .ident →
      Directs direction.kind associativity → precedence.kind = .int →
      Expects readOperator
        [.token word, .token symbol, .optional (some (.token direction)),
          .token precedence]
  | alternation (first : List (Clause K)) (more : List (List (Clause K))) :
      Expects readAlternation
        [.out (.sequence first), .list (more.map fun cs => .out (.sequence cs))]
  | sequence (clauses : List (Clause K)) :
      Expects readSequence [.list (clauses.map fun c => .out (.clause c))]
  | clause {c : Clause K} : Expects readClause [.out (.clause c), .optional none]
  | suffixed {c d : Clause K} {suffix : Token RuleKind} :
      Suffixed c suffix.kind d →
      Expects readClause [.out (.clause c), .optional (some (.token suffix))]
  | name {x : Token RuleKind} :
      x.kind = .ident → Expects readName [.token x, .optional none]
  | discarded {x mark : Token RuleKind} :
      x.kind = .ident → mark.kind = .discard →
      Expects readName [.token x, .optional (some (.token mark))]
  | parentheses {branches : List (List (Clause K))} :
      branches ≠ [] → (∀ b ∈ branches, b ≠ []) →
      Expects readParentheses [.out (.branches branches)]

/-- **A node whose callback, if it has one, is given what it is made for.** -/
def Settled (l : Label RuleKind (Part K)) (cs : List (Tree RuleKind (Part K))) :
    Prop :=
  ∀ f, l.callback = some f → ∃ vs, Tree.liveValues cs = .ok vs ∧ Expects f vs

/-! ## Reading a goal -/

variable {ts mid rest : List (Token RuleKind)} {vs ws : List (Arg K)}
  {c : Clause RuleKind} {cs : List (Clause RuleKind)} {kind : RuleKind}
  {t : Token RuleKind}

/-- **A goal is read off the head of some tokens**: it matches there, its trees
have the values given, and every callback in them is given what it is made
for. -/
def Reads (goal : Goal RuleKind (Part K)) (ts rest : List (Token RuleKind))
    (vs : List (Arg K)) : Prop :=
  ∃ us, (grammar K).Peg .ebnf goal ts (some (us, rest)) ∧
    Tree.liveValues us = .ok vs ∧ ∀ u ∈ us, u.AllNodes Settled

/-- **A symbol is read off the head of some tokens**: it matches by one of its
rules, whose callback is given what it is made for and gives the part. -/
def ReadsAs (sym : Symbol) (ts rest : List (Token RuleKind)) (part : Part K) :
    Prop :=
  ∃ f us vs,
    (grammar K).Peg .ebnf (.name sym.name) ts
      (some ([.node (.rule sym.name f) us], rest)) ∧
    Tree.liveValues us = .ok vs ∧ Expects f vs ∧ f vs = part ∧
    ∀ u ∈ us, u.AllNodes Settled

theorem reads_done : Reads (K := K) (.sequence []) ts ts [] :=
  ⟨[], .done, rfl, fun _ h => absurd h List.not_mem_nil⟩

theorem Reads.andThen (h : Reads (.clause c) ts mid vs)
    (h' : Reads (.sequence cs) mid rest ws) :
    Reads (.sequence (c :: cs)) ts rest (vs ++ ws) := by
  obtain ⟨us, hpeg, hvs, hall⟩ := h
  obtain ⟨us', hpeg', hws, hall'⟩ := h'
  exact ⟨us ++ us', .andThen hpeg hpeg', Tree.liveValues_append hvs hws,
    List.forall_mem_append.mpr ⟨hall, hall'⟩⟩

theorem reads_kept (h : t.kind = kind) :
    Reads (K := K) (.clause (kept kind)) (t :: ts) ts [.token t] :=
  ⟨[.leaf t false], .token h, rfl, List.forall_mem_singleton.mpr .leaf⟩

theorem reads_dropped (h : t.kind = kind) :
    Reads (K := K) (.clause (dropped kind)) (t :: ts) ts [] :=
  ⟨[.leaf t true], .token h, rfl, List.forall_mem_singleton.mpr .leaf⟩

theorem reads_oneOf {kinds : List RuleKind} (h : t.kind ∈ kinds) :
    Reads (K := K) (.clause (oneOf kinds)) (t :: ts) ts [.token t] :=
  ⟨[.leaf t false], .choice rfl (.tokens h), rfl,
    List.forall_mem_singleton.mpr .leaf⟩

theorem ReadsAs.reads {sym : Symbol} {part : Part K}
    (h : ReadsAs sym ts rest part) :
    Reads (.clause (name sym.name)) ts rest [.out part] := by
  obtain ⟨f, us, vs, hpeg, hvs, hf, rfl, hall⟩ := h
  have hvalue : (Tree.node (.rule sym.name f) us).value = .ok (.out (f vs)) :=
    Tree.value_node (.inl rfl) rfl hvs
  refine ⟨[.node (.rule sym.name f) us], .reference hpeg,
    Tree.liveValues_cons rfl hvalue rfl,
    List.forall_mem_singleton.mpr (.node ?_ hall)⟩
  rintro _ ⟨⟩
  exact ⟨vs, hvs, hf⟩

/-- A symbol is read by a rule of its own before which all others fail. -/
theorem readsAs_rule {sym : Symbol} {part : Part K}
    (before : List (Rule RuleKind (Part K)))
    {after : List (Rule RuleKind (Part K))} {rule : Rule RuleKind (Part K)}
    (hrules : rulesOf K sym = before ++ rule :: after)
    (hbefore : ∀ earlier ∈ before,
      (grammar K).Peg .ebnf (.sequence earlier.clauses) ts none)
    (h : Reads (.sequence rule.clauses) ts rest vs)
    (hvs : Expects rule.callback vs) (hpart : rule.callback vs = part) :
    ReadsAs sym ts rest part := by
  obtain ⟨us, hpeg, hlive, hall⟩ := h
  exact ⟨rule.callback, us, vs,
    .plain (get?_symbol sym) rfl (.rule hrules hbefore hpeg), hlive, hvs, hpart,
    hall⟩

/-- A symbol is read by its first rule. -/
theorem readsAs_firstRule {sym : Symbol} {part : Part K}
    {after : List (Rule RuleKind (Part K))} {rule : Rule RuleKind (Part K)}
    (hrules : rulesOf K sym = rule :: after)
    (h : Reads (.sequence rule.clauses) ts rest vs)
    (hvs : Expects rule.callback vs) (hpart : rule.callback vs = part) :
    ReadsAs sym ts rest part :=
  readsAs_rule [] hrules (fun _ h => absurd h List.not_mem_nil) h hvs hpart

/-- Options and repetitions have no callback. -/
theorem settled_clauseTree {kind : NodeKind} {us : List (Tree RuleKind (Part K))}
    (h : ∀ u ∈ us, u.AllNodes Settled) :
    (Matcher.clauseTree c kind us).AllNodes Settled :=
  .node (fun _ h => by cases h) h

theorem Reads.optional {v : Arg K} (h : Reads (.clause c) ts rest [v]) :
    Reads (.clause (.optional c)) ts rest [.optional (some v)] := by
  obtain ⟨us, hpeg, hvs, hall⟩ := h
  have hne : us ≠ [] := by
    rintro rfl
    cases hvs
  exact ⟨_, .optional rfl hpeg, Tree.liveValues_optional hvs hne,
    List.forall_mem_singleton.mpr (settled_clauseTree hall)⟩

theorem reads_optional_dropped (h : t.kind = kind) :
    Reads (K := K) (.clause (.optional (dropped kind))) (t :: ts) ts
      [.optional (some (.list []))] :=
  ⟨_, .optional rfl (.token h), rfl,
    List.forall_mem_singleton.mpr
      (settled_clauseTree (List.forall_mem_singleton.mpr .leaf))⟩

theorem reads_optional_none (h : (grammar K).Peg .ebnf (.clause c) ts none) :
    Reads (K := K) (.clause (.optional c)) ts ts [.optional none] :=
  ⟨_, .optionalNone rfl h, rfl,
    List.forall_mem_singleton.mpr
      (settled_clauseTree fun _ h => absurd h List.not_mem_nil)⟩

theorem Reads.star (h : Reads (.iterations c) ts rest vs) :
    Reads (.clause (.star c)) ts rest [.list vs] := by
  obtain ⟨us, hpeg, hvs, hall⟩ := h
  exact ⟨_, .star rfl hpeg, Tree.liveValues_many hvs,
    List.forall_mem_singleton.mpr (settled_clauseTree hall)⟩

theorem Reads.plus (h : Reads (.clause c) ts mid vs)
    (h' : Reads (.iterations c) mid rest ws) :
    Reads (.clause (.plus c)) ts rest [.list (vs ++ ws)] := by
  obtain ⟨us, hpeg, hvs, hall⟩ := h
  obtain ⟨us', hpeg', hws, hall'⟩ := h'
  exact ⟨_, .plus rfl hpeg hpeg',
    Tree.liveValues_many (Tree.liveValues_append hvs hws),
    List.forall_mem_singleton.mpr
      (settled_clauseTree (List.forall_mem_append.mpr ⟨hall, hall'⟩))⟩

theorem reads_stop (h : (grammar K).Peg .ebnf (.clause c) ts none) :
    Reads (K := K) (.iterations c) ts ts [] :=
  ⟨[], .stop h, rfl, fun _ h => absurd h List.not_mem_nil⟩

theorem Reads.again (h : Reads (.clause c) ts mid vs)
    (hlt : mid.length < ts.length) (h' : Reads (.iterations c) mid rest ws) :
    Reads (.iterations c) ts rest (vs ++ ws) := by
  obtain ⟨us, hpeg, hvs, hall⟩ := h
  obtain ⟨us', hpeg', hws, hall'⟩ := h'
  exact ⟨us ++ us', .again hpeg hlt hpeg', Tree.liveValues_append hvs hws,
    List.forall_mem_append.mpr ⟨hall, hall'⟩⟩

theorem Reads.group (h : Reads (.sequence cs) ts rest vs) :
    Reads (.clause (.group cs)) ts rest vs := by
  obtain ⟨us, hpeg, hvs, hall⟩ := h
  exact ⟨us, .group rfl hpeg, hvs, hall⟩

/-! ## What cannot begin a part -/

/-- **No token of some kinds stands first.** -/
def Avoids (kinds : List RuleKind) (ts : List (Token RuleKind)) : Prop :=
  ∀ t, ts.head? = some t → t.kind ∉ kinds

theorem avoids_nil (kinds : List RuleKind) : Avoids kinds [] :=
  fun _ h => by cases h

theorem avoids_cons {kinds : List RuleKind} :
    Avoids kinds (t :: ts) ↔ t.kind ∉ kinds :=
  ⟨fun h => h t rfl, fun h _ ht => Option.some.inj ht ▸ h⟩

theorem Avoids.mono {kinds kinds' : List RuleKind} (h : Avoids kinds ts)
    (hsub : kinds' ⊆ kinds) : Avoids kinds' ts :=
  fun t ht hmem => h t ht (hsub hmem)

theorem fails_token {d : Bool} (h : Avoids [kind] ts) :
    (grammar K).Peg .ebnf (.clause (.token kind d)) ts none :=
  .noToken fun t ht hk => h t ht (hk ▸ List.mem_singleton_self _)

theorem fails_oneOf {kinds : List RuleKind} (h : Avoids kinds ts) :
    (grammar K).Peg .ebnf (.clause (oneOf kinds)) ts none :=
  .choice rfl (.noTokens h)

theorem fails_name {sym : Symbol}
    (h : (grammar K).Peg .ebnf (.name sym.name) ts none) :
    (grammar K).Peg .ebnf (.clause (name sym.name)) ts none :=
  .noReference h

/-- A symbol fails if all its rules do. -/
theorem fails_of_rules {sym : Symbol}
    (h : ∀ rule ∈ rulesOf K sym,
      (grammar K).Peg .ebnf (.sequence rule.clauses) ts none) :
    (grammar K).Peg .ebnf (.name sym.name) ts none :=
  .plain (get?_symbol sym) rfl (.noRule h)

/-- The kinds that an atom begins with. -/
def atomStarts : List RuleKind := [.ident, .lparen]

/-- The kinds of the words that declare operators. -/
def declaring : List RuleKind := [.infixed, .prefixed, .postfixed]

theorem fails_atom (h : Avoids atomStarts ts) :
    (grammar K).Peg .ebnf (.name Symbol.atom.name) ts none :=
  fails_of_rules (List.forall_mem_cons.mpr
    ⟨.stuck (fails_token (h.mono (by decide))),
      List.forall_mem_singleton.mpr
        (.stuck (fails_token (h.mono (by decide))))⟩)

theorem fails_clause (h : Avoids atomStarts ts) :
    (grammar K).Peg .ebnf (.name Symbol.clause.name) ts none :=
  fails_of_rules
    (List.forall_mem_singleton.mpr (.stuck (fails_name (fails_atom h))))

theorem fails_sequence (h : Avoids atomStarts ts) :
    (grammar K).Peg .ebnf (.name Symbol.sequence.name) ts none :=
  fails_of_rules (List.forall_mem_singleton.mpr
    (.stuck (.plusNone rfl (fails_name (fails_clause h)))))

theorem fails_alternation (h : Avoids atomStarts ts) :
    (grammar K).Peg .ebnf (.name Symbol.alternation.name) ts none :=
  fails_of_rules
    (List.forall_mem_singleton.mpr (.stuck (fails_name (fails_sequence h))))

theorem fails_operator (h : Avoids declaring ts) :
    (grammar K).Peg .ebnf (.name Symbol.operator.name) ts none :=
  fails_of_rules (List.forall_mem_singleton.mpr (.stuck (fails_oneOf h)))

theorem fails_operatorBody (h : Avoids declaring ts) :
    (grammar K).Peg .ebnf (.sequence [name "operator"]) ts none :=
  .stuck (fails_name (fails_operator h))

theorem fails_branchesBody (h : Avoids atomStarts ts) :
    (grammar K).Peg .ebnf (.sequence [name "alternation"]) ts none :=
  .stuck (fails_name (fails_alternation h))

/-! ## What may follow a part -/

/-- **The kinds that must not follow a symbol**, because it would go on with
them. -/
def Symbol.follow : Symbol → List RuleKind
  | operator => []
  | atom => [.discard]
  | clause => [.discard, .question, .star, .plus]
  | sequence => [.discard, .question, .star, .plus, .ident, .lparen]
  | alternation => [.discard, .question, .star, .plus, .ident, .lparen, .pipe]
  | body =>
    [.discard, .question, .star, .plus, .ident, .lparen, .pipe, .infixed,
      .prefixed, .postfixed]
  | rule =>
    [.discard, .question, .star, .plus, .ident, .lparen, .pipe, .infixed,
      .prefixed, .postfixed, .semicolon]

/-- The bar and the sequence that branches go on with. -/
def nextBranch : Clause RuleKind := .group [dropped .pipe, name "sequence"]

/-- **What is read of tokens that spell a part**, whatever follows them. The
clauses of a sequence are also read as iterations of a clause, and branches after
a bar as iterations of a bar and a sequence. -/
def IsRead : Symbol → List (Token RuleKind) → Part K → Prop
  | .sequence, ts, part =>
    ∃ cs : List (Clause K), part = .sequence cs ∧
      ∀ rest, Avoids Symbol.sequence.follow rest →
        ReadsAs .sequence (ts ++ rest) rest part ∧
        Reads (.iterations (name "clause")) (ts ++ rest) rest
          (cs.map fun c => .out (.clause c))
  | .alternation, ts, part =>
    ∃ bs : List (List (Clause K)), part = .branches bs ∧
      ∀ rest, Avoids Symbol.alternation.follow rest →
        ReadsAs .alternation (ts ++ rest) rest part ∧
        ∀ bar : Token RuleKind, bar.kind = .pipe →
          Reads (.iterations nextBranch) (bar :: (ts ++ rest)) rest
            (bs.map fun cs => .out (.sequence cs))
  | sym, ts, part =>
    ∀ rest, Avoids sym.follow rest → ReadsAs sym (ts ++ rest) rest part

/-- Tokens that spell an atom, or what is made of atoms, begin as atoms do. -/
theorem Spells.exists_cons {sym : Symbol} {part : Part K}
    (h : Spells sym ts part)
    (hsym : sym ∈ [Symbol.atom, .clause, .sequence, .alternation]) :
    ∃ t us, ts = t :: us ∧ t.kind ∈ atomStarts := by
  induction h with
  | rule | ruleEnd | operatorBody | branchesBody | emptyBody | operator
  | directed => simp at hsym
  | branch _ ih | last _ ih | clause _ ih => exact ih (by decide)
  | branches _ _ _ ih | sequence _ _ ih | suffixed _ _ ih =>
    obtain ⟨t, us, rfl, ht⟩ := ih (by decide)
    exact ⟨t, _, rfl, ht⟩
  | name h | discarded h => exact ⟨_, _, rfl, h ▸ List.mem_cons_self⟩
  | parentheses h =>
    exact ⟨_, _, rfl, h ▸ List.mem_cons_of_mem _ List.mem_cons_self⟩

/-- A token of one set of kinds avoids another. -/
theorem avoids_of_mem {kinds kinds' : List RuleKind} (h : t.kind ∈ kinds)
    (hdisj : ∀ k ∈ kinds, k ∉ kinds') : Avoids kinds' (t :: ts) :=
  avoids_cons.mpr (hdisj t.kind h)

theorem length_lt_cons_append :
    rest.length < (t :: (ts ++ rest)).length := by
  rw [List.length_cons, List.length_append]
  omega

/-- Tokens that spell a clause are some tokens. -/
theorem Spells.length_lt {part : Part K} (h : Spells .clause ts part) :
    rest.length < (ts ++ rest).length := by
  obtain ⟨t, us, rfl, _⟩ := h.exists_cons (by decide)
  simp only [List.length_append, List.length_cons]
  omega

/-! ## What the callbacks give -/

omit [TokenKind K] in
theorem sequences_map (css : List (List (Clause K))) :
    sequences (css.map fun cs => (.out (.sequence cs) : Arg K)) = css := by
  simp [sequences, List.filterMap_map]

omit [TokenKind K] in
theorem clauses_map (cs : List (Clause K)) :
    clauses (cs.map fun c => (.out (.clause c) : Arg K)) = cs := by
  simp [clauses, List.filterMap_map]

theorem Names.eq {text : String} {d : Bool} {c : Clause K}
    (h : Names text d c) : clauseOfName text d = c := by
  unfold clauseOfName
  cases h with
  | kind h | other h => rw [h]

omit [TokenKind K] in
theorem Suffixed.eq {c d : Clause K} (h : Suffixed c kind d) :
    withSuffix c (some kind) = d := by
  cases h <;> rfl

omit [TokenKind K] in
theorem Joined.eq {cs : List (Clause K)} {c : Clause K} (h : Joined cs c) :
    clauseOfSequence cs = c := by
  cases h <;> rfl

omit [TokenKind K] in
theorem map_clauseOfSequence {bs : List (List (Clause K))} {cs : List (Clause K)}
    (h : List.Forall₂ Joined bs cs) : bs.map clauseOfSequence = cs := by
  induction h with
  | nil => rfl
  | cons hc _ ih => rw [List.map_cons, hc.eq, ih]

omit [TokenKind K] in
theorem Enclosed.eq {bs : List (List (Clause K))} {c : Clause K}
    (h : Enclosed bs c) : clauseOfBranches bs = c := by
  cases h with
  | one h => exact h.eq
  | many h => exact congrArg Clause.choice (map_clauseOfSequence h)

theorem Declares.eq {affix : Affix} (h : Declares kind affix) :
    affixOf kind = affix := by
  cases h <;> rfl

theorem Directs.eq {associativity : Associativity}
    (h : Directs kind associativity) :
    associativityOf (some kind) = some associativity := by
  cases h <;> rfl

theorem Declares.mem {affix : Affix} (h : Declares kind affix) :
    kind ∈ [RuleKind.infixed, .prefixed, .postfixed] := by
  cases h <;> decide

theorem Directs.mem {associativity : Associativity}
    (h : Directs kind associativity) : kind ∈ [RuleKind.left, .right] := by
  cases h <;> decide

omit [TokenKind K] in
theorem Suffixed.mem {c d : Clause K} (h : Suffixed c kind d) :
    kind ∈ [RuleKind.question, .star, .plus] := by
  cases h <;> decide

/-! ## What each rule of the grammar reads -/

theorem readsAs_declaration {x colon : Token RuleKind} {body : Body K}
    {semicolon : Option (Arg K)} (hx : x.kind = .ident)
    (hcolon : colon.kind = .colon) (hbody : ReadsAs .body ts mid (.body body))
    (hend : Reads (.clause (.optional (dropped .semicolon))) mid rest
      [.optional semicolon]) :
    ReadsAs .rule (x :: colon :: ts) rest (.declaration ⟨x.text, body⟩) :=
  readsAs_firstRule rfl ((reads_kept hx).andThen ((reads_dropped hcolon).andThen
    (hbody.reads.andThen (hend.andThen reads_done)))) (.rule hx) rfl

theorem readsAs_operatorBody {op : OperatorDeclaration}
    (h : ReadsAs (K := K) .operator ts rest (.operator op)) :
    ReadsAs (K := K) .body ts rest (.body (.operator op)) :=
  readsAs_firstRule rfl (h.reads.andThen reads_done) .operatorBody rfl

/-- Branches are read as a right-hand side where no operator is declared. -/
theorem readsAs_branchesBody {bs : List (List (Clause K))}
    (h : ReadsAs .alternation ts rest (.branches bs)) (hts : Avoids declaring ts) :
    ReadsAs .body ts rest (.body (.branches bs)) :=
  readsAs_rule [_] rfl (List.forall_mem_singleton.mpr (fails_operatorBody hts))
    (h.reads.andThen reads_done) .branchesBody rfl

/-- Nothing is read as a right-hand side where neither an operator nor branches
begin. -/
theorem readsAs_emptyBody (hoperator : Avoids declaring ts)
    (hatom : Avoids atomStarts ts) :
    ReadsAs (K := K) .body ts ts (.body .empty) :=
  readsAs_rule [_, _] rfl (List.forall_mem_cons.mpr
    ⟨fails_operatorBody hoperator,
      List.forall_mem_singleton.mpr (fails_branchesBody hatom)⟩)
    reads_done .emptyBody rfl

theorem readsAs_operator {word symbol precedence : Token RuleKind} {affix : Affix}
    (hword : Declares word.kind affix) (hsymbol : symbol.kind = .ident)
    (hprecedence : precedence.kind = .int) :
    ReadsAs (K := K) .operator (word :: symbol :: precedence :: rest) rest
      (.operator ⟨affix, symbol.text, none, precedence.text⟩) := by
  have hnone : Reads (K := K) (.clause (.optional (oneOf [.left, .right])))
      (precedence :: rest) (precedence :: rest) [.optional none] :=
    reads_optional_none
      (fails_oneOf (avoids_cons.mpr (hprecedence ▸ by decide)))
  refine readsAs_firstRule rfl ((reads_oneOf hword.mem).andThen
    ((reads_kept hsymbol).andThen (hnone.andThen
      ((reads_kept hprecedence).andThen reads_done))))
    (.operator hword hsymbol hprecedence) ?_
  show Part.operator _ = _
  rw [hword.eq]
  rfl

theorem readsAs_directed {word symbol direction precedence : Token RuleKind}
    {affix : Affix} {associativity : Associativity}
    (hword : Declares word.kind affix) (hsymbol : symbol.kind = .ident)
    (hdirection : Directs direction.kind associativity)
    (hprecedence : precedence.kind = .int) :
    ReadsAs (K := K) .operator
      (word :: symbol :: direction :: precedence :: rest) rest
      (.operator ⟨affix, symbol.text, some associativity, precedence.text⟩) := by
  have hsome : Reads (K := K) (.clause (.optional (oneOf [.left, .right])))
      (direction :: precedence :: rest) (precedence :: rest) _ :=
    (reads_oneOf hdirection.mem).optional
  refine readsAs_firstRule rfl ((reads_oneOf hword.mem).andThen
    ((reads_kept hsymbol).andThen (hsome.andThen
      ((reads_kept hprecedence).andThen reads_done))))
    (.directed hword hsymbol hdirection hprecedence) ?_
  show Part.operator ⟨_, _, associativityOf (some direction.kind), _⟩ = _
  rw [hword.eq, hdirection.eq]

/-- A bar and a sequence are a branch more. -/
theorem reads_nextBranch {bar : Token RuleKind} {cs : List (Clause K)}
    (hbar : bar.kind = .pipe) (h : ReadsAs .sequence ts rest (.sequence cs)) :
    Reads (.clause nextBranch) (bar :: ts) rest [.out (.sequence cs)] :=
  ((reads_dropped hbar).andThen (h.reads.andThen reads_done)).group

/-- There is no branch more where there is no bar. -/
theorem reads_noNextBranch (h : Avoids [.pipe] ts) :
    Reads (K := K) (.iterations nextBranch) ts ts [] :=
  reads_stop (.group rfl (.stuck (fails_token h)))

theorem readsAs_alternation {cs : List (Clause K)} {bs : List (List (Clause K))}
    (h : ReadsAs .sequence ts mid (.sequence cs))
    (hmore : Reads (.iterations nextBranch) mid rest
      (bs.map fun cs => .out (.sequence cs))) :
    ReadsAs .alternation ts rest (.branches (cs :: bs)) :=
  readsAs_firstRule rfl (h.reads.andThen (hmore.star.andThen reads_done))
    (.alternation cs bs) (congrArg (Part.branches <| cs :: ·) (sequences_map bs))

/-- There is no clause more where no atom begins. -/
theorem reads_noNextClause (h : Avoids atomStarts ts) :
    Reads (K := K) (.iterations (name "clause")) ts ts [] :=
  reads_stop (fails_name (fails_clause h))

theorem readsAs_sequence {c : Clause K} {cs : List (Clause K)}
    (h : ReadsAs .clause ts mid (.clause c))
    (hmore : Reads (.iterations (name "clause")) mid rest
      (cs.map fun c => .out (.clause c))) :
    ReadsAs .sequence ts rest (.sequence (c :: cs)) :=
  readsAs_firstRule rfl ((h.reads.plus hmore).andThen reads_done)
    (.sequence (c :: cs)) (congrArg Part.sequence (clauses_map (c :: cs)))

/-- An atom is read as a clause where no suffix follows. -/
theorem readsAs_clause {c : Clause K} (h : ReadsAs .atom ts rest (.clause c))
    (hrest : Avoids [.question, .star, .plus] rest) :
    ReadsAs .clause ts rest (.clause c) := by
  have hnone : Reads (K := K)
      (.clause (.optional (oneOf [.question, .star, .plus]))) rest rest
      [.optional none] :=
    reads_optional_none (fails_oneOf hrest)
  exact readsAs_firstRule rfl (h.reads.andThen (hnone.andThen reads_done))
    .clause rfl

theorem readsAs_suffixed {c d : Clause K} {suffix : Token RuleKind}
    (h : ReadsAs .atom ts (suffix :: rest) (.clause c))
    (hsuffix : Suffixed c suffix.kind d) :
    ReadsAs .clause ts rest (.clause d) := by
  have hsome : Reads (K := K)
      (.clause (.optional (oneOf [.question, .star, .plus])))
      (suffix :: rest) rest _ :=
    (reads_oneOf hsuffix.mem).optional
  refine readsAs_firstRule rfl (h.reads.andThen (hsome.andThen reads_done))
    (.suffixed hsuffix) ?_
  show Part.clause (withSuffix c (some suffix.kind)) = _
  rw [hsuffix.eq]

/-- An identifier is read as an atom where no mark follows. -/
theorem readsAs_name {x : Token RuleKind} {c : Clause K} (hx : x.kind = .ident)
    (hc : Names x.text false c) (hrest : Avoids [.discard] rest) :
    ReadsAs .atom (x :: rest) rest (.clause c) := by
  have hnone : Reads (K := K) (.clause (.optional (kept .discard))) rest rest
      [.optional none] :=
    reads_optional_none (fails_token hrest)
  refine readsAs_firstRule rfl
    ((reads_kept hx).andThen (hnone.andThen reads_done)) (.name hx) ?_
  show Part.clause (clauseOfName x.text false) = _
  rw [hc.eq]

theorem readsAs_discarded {x mark : Token RuleKind} {c : Clause K}
    (hx : x.kind = .ident) (hmark : mark.kind = .discard)
    (hc : Names x.text true c) :
    ReadsAs .atom (x :: mark :: rest) rest (.clause c) := by
  have hsome : Reads (K := K) (.clause (.optional (kept .discard)))
      (mark :: rest) rest _ :=
    (reads_kept hmark).optional
  refine readsAs_firstRule rfl
    ((reads_kept hx).andThen (hsome.andThen reads_done))
    (.discarded hx hmark) ?_
  show Part.clause (clauseOfName x.text true) = _
  rw [hc.eq]

theorem readsAs_parentheses {left right : Token RuleKind}
    {bs : List (List (Clause K))} {c : Clause K} (hleft : left.kind = .lparen)
    (h : ReadsAs .alternation ts (right :: rest) (.branches bs))
    (hright : right.kind = .rparen) (hne : bs ≠ [] ∧ ∀ b ∈ bs, b ≠ [])
    (hc : Enclosed bs c) : ReadsAs .atom (left :: ts) rest (.clause c) := by
  have hname : (grammar K).Peg .ebnf
      (.sequence [kept .ident, .optional (kept .discard)]) (left :: ts) none :=
    .stuck (fails_token (avoids_cons.mpr (hleft ▸ by decide)))
  refine readsAs_rule [_] rfl (List.forall_mem_singleton.mpr hname)
    ((reads_dropped hleft).andThen (h.reads.andThen
      ((reads_dropped hright).andThen reads_done)))
    (.parentheses hne.1 hne.2) ?_
  show Part.clause (clauseOfBranches bs) = _
  rw [hc.eq]

/-! ## Whatever is spelled is read -/

/-- **Tokens that spell a part are read as that part**, whatever follows
them. -/
theorem Spells.isRead {sym : Symbol} {part : Part K} (h : Spells sym ts part) :
    IsRead sym ts part := by
  induction h with
  | rule hx hcolon _ ih =>
    intro rest hrest
    have hend : Reads (K := K) (.clause (.optional (dropped .semicolon))) rest
        rest [.optional none] :=
      reads_optional_none (fails_token (hrest.mono (by decide)))
    exact readsAs_declaration hx hcolon (ih rest (hrest.mono (by decide))) hend
  | @ruleEnd x colon semicolon ts body hx hcolon _ hsemicolon ih =>
    intro rest _
    have hbody := ih (semicolon :: rest)
      (avoids_cons.mpr (hsemicolon ▸ by decide))
    rw [List.cons_append, List.cons_append, List.append_assoc]
    exact readsAs_declaration hx hcolon hbody (reads_optional_dropped hsemicolon)
  | operatorBody _ ih =>
    intro rest _
    exact readsAs_operatorBody (ih rest fun _ _ => List.not_mem_nil)
  | branchesBody h ih =>
    intro rest hrest
    obtain ⟨t, us, rfl, ht⟩ := h.exists_cons (by decide)
    obtain ⟨_, _, ih⟩ := ih
    exact readsAs_branchesBody (ih rest (hrest.mono (by decide))).1
      (avoids_of_mem ht (by decide))
  | emptyBody =>
    intro rest hrest
    exact readsAs_emptyBody (hrest.mono (by decide)) (hrest.mono (by decide))
  | operator hword hsymbol hprecedence =>
    exact fun rest _ => readsAs_operator hword hsymbol hprecedence
  | directed hword hsymbol hdirection hprecedence =>
    exact fun rest _ => readsAs_directed hword hsymbol hdirection hprecedence
  | @branch ts cs _ ih =>
    obtain ⟨_, _, ih⟩ := ih
    refine ⟨[cs], rfl, fun rest hrest => ?_⟩
    have hsequence := (ih rest (hrest.mono (by decide))).1
    have hstop := reads_noNextBranch (K := K) (hrest.mono (by decide))
    exact ⟨readsAs_alternation hsequence hstop, fun bar hbar =>
      (reads_nextBranch hbar hsequence).again length_lt_cons_append hstop⟩
  | @branches ts us bar cs bs _ hbar _ ih ih' =>
    obtain ⟨_, _, ih⟩ := ih
    obtain ⟨_, hbs, ih'⟩ := ih'
    obtain rfl := Part.branches.inj hbs
    refine ⟨cs :: bs, rfl, fun rest hrest => ?_⟩
    have hsequence := (ih (bar :: (us ++ rest))
      (avoids_cons.mpr (hbar ▸ by decide))).1
    have hmore := (ih' rest hrest).2 bar hbar
    rw [List.append_assoc, List.cons_append]
    exact ⟨readsAs_alternation hsequence hmore, fun bar' hbar' =>
      (reads_nextBranch hbar' hsequence).again length_lt_cons_append hmore⟩
  | @last ts c h ih =>
    refine ⟨[c], rfl, fun rest hrest => ?_⟩
    have hclause := ih rest (hrest.mono (by decide))
    have hstop := reads_noNextClause (K := K) (hrest.mono (by decide))
    exact ⟨readsAs_sequence hclause hstop,
      hclause.reads.again h.length_lt hstop⟩
  | @sequence ts us c cs h h' ih ih' =>
    obtain ⟨_, hcs, ih'⟩ := ih'
    obtain rfl := Part.sequence.inj hcs
    refine ⟨c :: cs, rfl, fun rest hrest => ?_⟩
    obtain ⟨t, us, rfl, ht⟩ := h'.exists_cons (by decide)
    have hclause := ih (t :: us ++ rest) (avoids_of_mem ht (by decide))
    have hmore := (ih' rest hrest).2
    rw [List.append_assoc]
    exact ⟨readsAs_sequence hclause hmore,
      hclause.reads.again h.length_lt hmore⟩
  | clause _ ih =>
    intro rest hrest
    exact readsAs_clause (ih rest (hrest.mono (by decide)))
      (hrest.mono (by decide))
  | @suffixed ts suffix c d _ hsuffix ih =>
    intro rest _
    rw [List.append_assoc]
    exact readsAs_suffixed
      (ih (suffix :: rest) (avoids_of_mem hsuffix.mem (by decide))) hsuffix
  | name hx hc => exact fun rest hrest => readsAs_name hx hc hrest
  | discarded hx hmark hc => exact fun rest _ => readsAs_discarded hx hmark hc
  | @parentheses left right ts bs c hleft h hright hc ih =>
    intro rest _
    obtain ⟨_, _, ih⟩ := ih
    have hbranches := (ih (right :: rest)
      (avoids_cons.mpr (hright ▸ by decide))).1
    rw [List.cons_append, List.append_assoc]
    exact readsAs_parentheses hleft hbranches hright h.branches_ne_nil hc

end RuleText

end Descent
