import ClassScript.Proofs.Script.Plain
/-!
# The spelling of printed nodes

The printed text of a plain node spells the lexemes of the node, however it is indented
(`Node.spelled`). There is a lemma for each kind of node, which takes the texts of the parts and what
printing puts between them.
-/

namespace ClassScript.Script

open Lexeme

/-! ## Texts made of others -/

namespace Lexeme

variable {text : String} {ls : List Lexeme}

theorem Spells.parenthesised (h : Spells text ls) (wrap : Bool) :
    Spells (parenthesised wrap text) (wrapped wrap ls) := by
  cases wrap with
  | false => exact h
  | true =>
    have hopen : Closed "(" [.mark '('] := fun _ => rfl
    have hclose : Closed ")" [.mark ')'] := fun _ => rfl
    exact ((hopen.spell h).close hclose rfl).spells

/-- A sign ends before an operand. -/
theorem Spells.signed {c : Char} (hc : isSignChar c = true) (h : Spells text ls)
    (hstart : StartsWith isOperand ls) :
    Spells (String.singleton c ++ text) (.sign (String.singleton c) :: ls) := by
  intro rest hrest
  have htext := h rest hrest
  obtain ⟨l, tail, rfl, hl⟩ := hstart
  rw [String.toList_append, String.toList_singleton, List.append_assoc, List.singleton_append, lex_sign hc]
  -- what follows the sign begins with no sign of its own, since its first lexeme is none
  cases hcs : text.toList ++ rest with
  | nil => simp [hcs, lex, lexFrom, State.flush] at htext
  | cons c' cs =>
    rw [hcs] at htext
    have hc' : isSignChar c' = false := by
      by_contra hsign
      obtain ⟨s, ls, hfirst⟩ := lexFrom_sign_eq [c'] cs
      rw [lex_sign (by simpa using hsign), hfirst, List.cons_append] at htext
      rw [← (List.cons.inj htext).1] at hl
      cases hl
    rw [lexFrom_sign hc', htext]
    rfl

theorem Spells.led {lead : String} {l : Lexeme} (hlead : Closed lead [l]) {text : Option String}
    {ls : Option (List Lexeme)} (h : Option.Rel Spells text ls) :
    Spells ((text.map (lead ++ ·)).getD "") (led l ls) := by
  cases h with
  | none => exact fun _ _ => rfl
  | some h => exact hlead.spell h

theorem apart_led {lead : String} (h : startsApart lead = true) (text : Option String) :
    Apart ((text.map (lead ++ ·)).getD "") := by
  cases text with
  | none => exact apart_empty
  | some text => exact apart_of_startsApart (startsApart_append h text)

theorem Spells.getD {text : Option String} {ls : Option (List Lexeme)} (h : Option.Rel Spells text ls) :
    Spells (text.getD "") (ls.getD []) := by
  cases h with
  | none => exact fun _ _ => rfl
  | some h => exact h

theorem Spells.separated {texts : List String} {lss : List (List Lexeme)}
    (h : List.Forall₂ Spells texts lss) :
    Spells (", ".intercalate texts) (separated lss) :=
  .intercalate (fun _ => rfl) rfl h

/-- Arguments in parentheses. -/
theorem Spells.arguments (h : Spells text ls) {texts : List String} {lss : List (List Lexeme)}
    (hargs : List.Forall₂ Spells texts lss) :
    Closed (text ++ "(" ++ ", ".intercalate texts ++ ")")
      (ls ++ .mark '(' :: (Lexeme.separated lss ++ [.mark ')'])) := by
  have hopen : Closed "(" [.mark '('] := fun _ => rfl
  have hclose : Closed ")" [.mark ')'] := fun _ => rfl
  simpa using ((h.close hopen rfl).spell (.separated hargs)).close hclose rfl

theorem spells_empty (h : Spells "" ls) : ls = [] := by
  simpa [lex, lexFrom, State.flush] using (h [] parted_nil).symm

/-- Texts that are empty contribute nothing. -/
theorem forall₂_filter {texts : List String} {lss : List (List Lexeme)}
    (h : List.Forall₂ Spells texts lss) :
    ∃ lss', List.Forall₂ Spells (texts.filter (!·.isEmpty)) lss' ∧ lss'.flatten = lss.flatten := by
  induction h with
  | nil => exact ⟨[], .nil, rfl⟩
  | @cons text ls texts lss htext _ ih =>
    obtain ⟨lss', hlss, hflat⟩ := ih
    by_cases hempty : text = ""
    · subst hempty
      exact ⟨lss', hlss, by rw [hflat, spells_empty htext]; rfl⟩
    · refine ⟨ls :: lss', ?_, by simp [hflat]⟩
      rw [List.filter_cons_of_pos (by simpa using hempty)]
      exact .cons htext hlss

theorem nil_intercalate (lss : List (List Lexeme)) : [].intercalate lss = lss.flatten := by
  induction lss with
  | nil => rfl
  | cons ls lss ih => cases lss <;> simp_all

theorem Closed.braced {unit separator : String} {mark : List Lexeme} (hunit : ∀ c ∈ unit.toList, c = ' ')
    (hmark : Closed separator mark) (hapart : startsApart separator = true) {texts : List String}
    {lss : List (List Lexeme)} (h : List.Forall₂ Spells texts lss) :
    Closed (braced unit separator texts) (.mark '\x7b' :: (mark.intercalate lss ++ [.mark '\x7d'])) := by
  cases h with
  | nil =>
    have hempty : Closed "\x7b\x7d" [.mark '\x7b', .mark '\x7d'] := fun _ => rfl
    rw [List.intercalate_nil]
    exact hempty
  | cons htext hrest =>
    have hopen : Closed "\x7b\n" [.mark '\x7b'] := fun _ => rfl
    have hclose : Closed "\n\x7d" [.mark '\x7d'] := fun _ => rfl
    have hinner := (Spells.intercalate hmark hapart (.cons htext hrest)).indented hunit
    exact ((hopen.append (.blanks hunit)).spell hinner).close hclose rfl

end Lexeme

/-! ## Marks and words between the parts -/

theorem closed_end : Closed ";" [.mark ';'] := fun _ => rfl

theorem closed_header : Closed ") " [.mark ')'] := fun _ => rfl

theorem closed_assign : Closed " = " [.sign "="] := fun _ => rfl

theorem closed_binary {op : BinaryOperator} (h : op ≠ .comma) :
    Closed (" " ++ op.symbol ++ " ") [symbol op.symbol] := by
  cases op with
  | comma => exact absurd rfl h
  | _ => exact fun _ => rfl

/-! ## Parts of nodes -/

variable {unit : String}

/-- All that the node is printed as spells its lexemes. -/
def Node.Printed (unit : String) (n : Node) : Prop :=
  ∀ text, n.printWith unit = .ok text → Spells text n.lexemes

theorem spells_printAll {ns : List Node} (h : ∀ n ∈ ns, n.Printed unit) {texts : List String}
    (hp : printAll unit ns = .ok texts) : List.Forall₂ Spells texts (allLexemes ns) := by
  induction ns generalizing texts with
  | nil =>
    obtain rfl := ok_eq_ok.1 hp
    exact .nil
  | cons n ns ih =>
    rw [List.forall_mem_cons] at h
    obtain ⟨text, htext, hp⟩ := bind_eq_ok.1 hp
    obtain ⟨texts, htexts, hp⟩ := bind_eq_ok.1 hp
    obtain rfl := ok_eq_ok.1 hp
    exact .cons (h.1 text htext) (ih h.2 htexts)

theorem spells_printOption {value : Option Node} (h : ∀ n ∈ value, n.Printed unit) {text : Option String}
    (hp : printOption unit value = .ok text) : Option.Rel Spells text (optionLexemes value) := by
  cases value with
  | none =>
    obtain rfl := ok_eq_ok.1 hp
    exact .none
  | some n =>
    obtain ⟨text, htext, hp⟩ := bind_eq_ok.1 hp
    obtain rfl := ok_eq_ok.1 hp
    exact .some (h n rfl text htext)

theorem spells_printFields {fs : List Field} (h : ∀ f ∈ fs, f.value.Printed unit) {texts : List String}
    (hp : printFields unit fs = .ok texts) : List.Forall₂ Spells texts (fieldLexemes fs) := by
  induction fs generalizing texts with
  | nil =>
    obtain rfl := ok_eq_ok.1 hp
    exact .nil
  | cons f fs ih =>
    rw [List.forall_mem_cons] at h
    obtain ⟨key, value⟩ := f
    obtain ⟨text, htext, hp⟩ := bind_eq_ok.1 hp
    obtain ⟨texts, htexts, hp⟩ := bind_eq_ok.1 hp
    obtain rfl := ok_eq_ok.1 hp
    have hcolon : Closed ": " [.sign ":"] := fun _ => rfl
    exact .cons (((Spells.quote key).close hcolon rfl).spell (h.1 text htext)) (ih h.2 htexts)

theorem spells_printHandler {handler : Option Handler}
    (hname : ∀ h ∈ handler, isIdentifierName h.binding = true) (h : ∀ h ∈ handler, h.body.Printed unit)
    {text : String} (hp : printHandler unit handler = .ok text) :
    Spells text (handlerLexemes handler) ∧ Apart text := by
  cases handler with
  | none =>
    obtain rfl := ok_eq_ok.1 hp
    exact ⟨fun _ _ => rfl, apart_empty⟩
  | some handler =>
    obtain ⟨binding, body⟩ := handler
    obtain ⟨text, htext, hp⟩ := bind_eq_ok.1 hp
    obtain rfl := ok_eq_ok.1 hp
    have hopen : Closed " catch (" [.word "catch", .mark '('] := fun _ => rfl
    have hbinding : Spells binding [.word binding] := .word (isWord_of_isIdentifierName (hname _ rfl))
    refine ⟨((hopen.spell hbinding).close closed_header rfl).spell (h _ rfl text htext), ?_⟩
    exact apart_of_startsApart (startsApart_append (startsApart_append (startsApart_append rfl _) _) _)

/-! ## Nodes of each kind -/

namespace Node.Printed

variable {t v l r x c o k e b : Node} {as ps ss : List Node}

theorem identifier {name : String} (h : isIdentifierName name = true) :
    (Node.identifier name).Printed unit := by
  rintro text ⟨⟩
  exact .word (isWord_of_isIdentifierName h)

theorem int (k : Nat) : (Node.int k).Printed unit := by
  rintro text ⟨⟩
  exact .word (isWord_toString k)

theorem string (s : String) : (Node.string s).Printed unit := by
  rintro text ⟨⟩
  exact .quote s

theorem breakLoop : Node.breakLoop.Printed unit := by
  rintro text ⟨⟩
  exact fun _ _ => rfl

theorem continueLoop : Node.continueLoop.Printed unit := by
  rintro text ⟨⟩
  exact fun _ _ => rfl

theorem assign (ht : t.Printed unit) (hv : v.Printed unit) : (Node.assign t v).Printed unit := by
  intro text hp
  obtain ⟨target, htarget, hp⟩ := bind_eq_ok.1 hp
  obtain ⟨value, hvalue, hp⟩ := bind_eq_ok.1 hp
  obtain rfl := ok_eq_ok.1 hp
  simpa [lexemes] using ((ht target htarget).close closed_assign rfl).spell (hv value hvalue)

theorem binary {op : BinaryOperator} (hop : op ≠ .comma) (hl : l.Printed unit) (hr : r.Printed unit) :
    (Node.binary op l r).Printed unit := by
  intro text hp
  obtain ⟨left, hleft, hp⟩ := bind_eq_ok.1 hp
  obtain ⟨right, hright, hp⟩ := bind_eq_ok.1 hp
  obtain rfl := ok_eq_ok.1 hp
  have hspelll := (hl left hleft).parenthesised l.wrapsAsOperand
  have hspellr := (hr right hright).parenthesised r.wrapsAsOperand
  have hsymbol := hspelll.close (closed_binary hop) (startsApart_append (startsApart_append rfl _) _)
  simpa [lexemes, String.append_assoc] using hsymbol.spell hspellr

/-- A sign before an operand does not run into it. -/
theorem unary {op : UnaryOperator} (h : x.Readable) (he : x.isStatement = false) (hx : x.Printed unit) :
    (Node.unary op x).Printed unit := by
  intro text hp
  obtain ⟨operand, hoperand, hp⟩ := bind_eq_ok.1 hp
  obtain rfl := ok_eq_ok.1 hp
  have hspell := (hx operand hoperand).parenthesised x.wrapsUnderUnary
  have hstart : StartsWith isOperand (wrapped x.wrapsUnderUnary x.lexemes) :=
    .wrapped rfl (startsWith_operand h he)
  cases op with
  | typeOf =>
    have hword : Closed "typeof " [.word "typeof"] := fun _ => rfl
    exact hword.spell hspell
  | void =>
    have hword : Closed "void " [.word "void"] := fun _ => rfl
    exact hword.spell hspell
  | not => exact hspell.signed (c := '!') rfl hstart
  | neg => exact hspell.signed (c := '-') rfl hstart
  | plus => exact hspell.signed (c := '+') rfl hstart
  | bitNot => exact hspell.signed (c := '~') rfl hstart

theorem ternary (hc : c.Printed unit) (ht : t.Printed unit) (ho : o.Printed unit) :
    (Node.ternary c t o).Printed unit := by
  intro text hp
  obtain ⟨test, htest, hp⟩ := bind_eq_ok.1 hp
  obtain ⟨whenTrue, htrue, hp⟩ := bind_eq_ok.1 hp
  obtain ⟨otherwise, helse, hp⟩ := bind_eq_ok.1 hp
  obtain rfl := ok_eq_ok.1 hp
  have hquestion : Closed " ? " [.sign "?"] := fun _ => rfl
  have hcolon : Closed " : " [.sign ":"] := fun _ => rfl
  have hfirst := ((hc test htest).parenthesised c.wrapsInTernary).close hquestion rfl
  have hsecond := (hfirst.spell ((ht whenTrue htrue).parenthesised t.wrapsInTernary)).close hcolon rfl
  simpa [lexemes] using hsecond.spell ((ho otherwise helse).parenthesised o.wrapsInTernary)

theorem property (ho : o.Printed unit) (hk : k.Printed unit) : (Node.property o k).Printed unit := by
  intro text hp
  obtain ⟨object, hobject, hp⟩ := bind_eq_ok.1 hp
  obtain ⟨key, hkey, hp⟩ := bind_eq_ok.1 hp
  obtain rfl := ok_eq_ok.1 hp
  have hdot : Closed "." [.mark '.'] := fun _ => rfl
  have hopen : Closed "[" [.mark '['] := fun _ => rfl
  have hclose : Closed "]" [.mark ']'] := fun _ => rfl
  have hspello := (ho object hobject).parenthesised o.wrapsAsObject
  have hspellk := hk key hkey
  cases hid : k.isIdentifier with
  | true => simpa [lexemes, hid] using (hspello.close hdot rfl).spell hspellk
  | false =>
    simpa [lexemes, hid] using (((hspello.close hopen rfl).spell hspellk).close hclose rfl).spells

theorem call (hc : c.Printed unit) (has : ∀ a ∈ as, a.Printed unit) : (Node.call c as).Printed unit := by
  intro text hp
  obtain ⟨callee, hcallee, hp⟩ := bind_eq_ok.1 hp
  obtain ⟨args, hargs, hp⟩ := bind_eq_ok.1 hp
  obtain rfl := ok_eq_ok.1 hp
  have hspell := (hc callee hcallee).parenthesised c.wrapsAsCallee
  simpa [lexemes] using (hspell.arguments (spells_printAll has hargs)).spells

theorem new (hc : c.Printed unit) (has : ∀ a ∈ as, a.Printed unit) : (Node.new c as).Printed unit := by
  intro text hp
  obtain ⟨cls, hcls, hp⟩ := bind_eq_ok.1 hp
  obtain ⟨args, hargs, hp⟩ := bind_eq_ok.1 hp
  obtain rfl := ok_eq_ok.1 hp
  have hnew : Closed "new " [.word "new"] := fun _ => rfl
  have hspell := hnew.spell ((hc cls hcls).parenthesised c.wrapsAsClass)
  simpa [lexemes] using (hspell.arguments (spells_printAll has hargs)).spells

theorem function (hps : ∀ p ∈ ps, p.Printed unit) (hb : b.Printed unit) :
    (Node.function ps b).Printed unit := by
  intro text hp
  obtain ⟨params, hparams, hp⟩ := bind_eq_ok.1 hp
  obtain ⟨body, hbody, hp⟩ := bind_eq_ok.1 hp
  obtain ⟨-, -, hp⟩ := bind_eq_ok.1 hp
  obtain rfl := ok_eq_ok.1 hp
  have hopen : Closed "function (" [.word "function", .mark '('] := fun _ => rfl
  have hspell := Spells.separated (spells_printAll hps hparams)
  simpa [lexemes] using ((hopen.spell hspell).close closed_header rfl).spell (hb body hbody)

theorem block (hunit : ∀ c ∈ unit.toList, c = ' ') (hss : ∀ s ∈ ss, s.Printed unit) :
    (Node.block ss).Printed unit := by
  intro text hp
  obtain ⟨texts, htexts, hp⟩ := bind_eq_ok.1 hp
  obtain rfl := ok_eq_ok.1 hp
  obtain ⟨lss, hlss, hflat⟩ := forall₂_filter (spells_printAll hss htexts)
  have hbreak : Closed "\n" [] := fun _ => rfl
  have hbraced := (Closed.braced hunit hbreak rfl hlss).spells
  rwa [nil_intercalate, hflat] at hbraced

theorem object (hunit : ∀ c ∈ unit.toList, c = ' ') {fs : List Field}
    (hfs : ∀ f ∈ fs, f.value.Printed unit) :
    (Node.object fs).Printed unit := by
  intro text hp
  obtain ⟨texts, htexts, hp⟩ := bind_eq_ok.1 hp
  obtain rfl := ok_eq_ok.1 hp
  have hcomma : Closed ",\n" [.mark ','] := fun _ => rfl
  exact (Closed.braced hunit hcomma rfl (spells_printFields hfs htexts)).spells

theorem statement (he : e.Printed unit) : (Node.statement e).Printed unit := by
  intro text hp
  obtain ⟨expr, hexpr, hp⟩ := bind_eq_ok.1 hp
  obtain rfl := ok_eq_ok.1 hp
  exact (((he expr hexpr).parenthesised _).close closed_end rfl).spells

theorem throwValue (hv : v.Printed unit) : (Node.throwValue v).Printed unit := by
  intro text hp
  obtain ⟨value, hvalue, hp⟩ := bind_eq_ok.1 hp
  obtain rfl := ok_eq_ok.1 hp
  have hthrow : Closed "throw " [.word "throw"] := fun _ => rfl
  exact ((hthrow.spell (hv value hvalue)).close closed_end rfl).spells

theorem declare {name : String} (hname : isIdentifierName name = true) {value : Option Node}
    (h : ∀ v ∈ value, v.Printed unit) : (Node.declare name value).Printed unit := by
  intro text hp
  obtain ⟨initial, hinitial, hp⟩ := bind_eq_ok.1 hp
  have hvar : Closed "var " [.word "var"] := fun _ => rfl
  have hhead := hvar.spell (.word (isWord_of_isIdentifierName hname))
  have hvalue := spells_printOption h hinitial
  cases value with
  | none =>
    cases hvalue
    obtain rfl := ok_eq_ok.1 hp
    exact (hhead.close closed_end rfl).spells
  | some v =>
    obtain ⟨hvalue⟩ := hvalue
    obtain rfl := ok_eq_ok.1 hp
    exact (((hhead.close closed_assign rfl).spell hvalue).close closed_end rfl).spells

theorem ret {value : Option Node} (h : ∀ v ∈ value, v.Printed unit) : (Node.ret value).Printed unit := by
  intro text hp
  obtain ⟨returned, hreturned, hp⟩ := bind_eq_ok.1 hp
  have hret : Closed "return " [.word "return"] := fun _ => rfl
  have hvalue := spells_printOption h hreturned
  cases value with
  | none =>
    cases hvalue
    obtain rfl := ok_eq_ok.1 hp
    exact fun _ _ => rfl
  | some v =>
    obtain ⟨hvalue⟩ := hvalue
    obtain rfl := ok_eq_ok.1 hp
    exact ((hret.spell hvalue).close closed_end rfl).spells

theorem whileLoop (hc : c.Printed unit) (hb : b.Printed unit) : (Node.whileLoop c b).Printed unit := by
  intro text hp
  obtain ⟨test, htest, hp⟩ := bind_eq_ok.1 hp
  obtain ⟨body, hbody, hp⟩ := bind_eq_ok.1 hp
  obtain ⟨-, -, hp⟩ := bind_eq_ok.1 hp
  obtain rfl := ok_eq_ok.1 hp
  have hopen : Closed "while (" [.word "while", .mark '('] := fun _ => rfl
  simpa [lexemes] using ((hopen.spell (hc test htest)).close closed_header rfl).spell (hb body hbody)

theorem branch (hc : c.Printed unit) (hb : b.Printed unit) {o : Option Node}
    (ho : ∀ e ∈ o, e.Printed unit) :
    (Node.branch c b o).Printed unit := by
  intro text hp
  obtain ⟨test, htest, hp⟩ := bind_eq_ok.1 hp
  obtain ⟨body, hbody, hp⟩ := bind_eq_ok.1 hp
  obtain ⟨otherwise, hother, hp⟩ := bind_eq_ok.1 hp
  obtain ⟨-, -, hp⟩ := bind_eq_ok.1 hp
  obtain ⟨-, -, hp⟩ := bind_eq_ok.1 hp
  obtain rfl := ok_eq_ok.1 hp
  have hopen : Closed "if (" [.word "if", .mark '('] := fun _ => rfl
  have helse : Closed " else " [.word "else"] := fun _ => rfl
  have hthen := ((hopen.spell (hc test htest)).close closed_header rfl).spell (hb body hbody)
  simpa [lexemes] using hthen.append (.led helse (spells_printOption ho hother)) (apart_led rfl _)

theorem forLoop {i c s : Option Node} (hi : ∀ e ∈ i, e.Printed unit) (hc : ∀ e ∈ c, e.Printed unit)
    (hs : ∀ e ∈ s, e.Printed unit) (hb : b.Printed unit) : (Node.forLoop i c s b).Printed unit := by
  intro text hp
  obtain ⟨init, hinit, hp⟩ := bind_eq_ok.1 hp
  obtain ⟨test, htest, hp⟩ := bind_eq_ok.1 hp
  obtain ⟨step, hstep, hp⟩ := bind_eq_ok.1 hp
  obtain ⟨body, hbody, hp⟩ := bind_eq_ok.1 hp
  obtain ⟨-, -, hp⟩ := bind_eq_ok.1 hp
  obtain rfl := ok_eq_ok.1 hp
  have hopen : Closed "for (" [.word "for", .mark '('] := fun _ => rfl
  have hsemicolon : Closed "; " [.mark ';'] := fun _ => rfl
  have hfirst := (hopen.spell (.getD (spells_printOption hi hinit))).close hsemicolon rfl
  have hsecond := (hfirst.spell (.getD (spells_printOption hc htest))).close hsemicolon rfl
  have hthird := (hsecond.spell (.getD (spells_printOption hs hstep))).close closed_header rfl
  simpa [lexemes] using hthird.spell (hb body hbody)

theorem tryCatch (hb : b.Printed unit) {hd : Option Handler}
    (hname : ∀ h ∈ hd, isIdentifierName h.binding = true) (hh : ∀ h ∈ hd, h.body.Printed unit)
    {f : Option Node} (hf : ∀ e ∈ f, e.Printed unit) : (Node.tryCatch b hd f).Printed unit := by
  intro text hp
  obtain ⟨body, hbody, hp⟩ := bind_eq_ok.1 hp
  obtain ⟨handler, hhandler, hp⟩ := bind_eq_ok.1 hp
  obtain ⟨cleanup, hcleanup, hp⟩ := bind_eq_ok.1 hp
  obtain ⟨-, -, hp⟩ := bind_eq_ok.1 hp
  obtain rfl := ok_eq_ok.1 hp
  have htry : Closed "try " [.word "try"] := fun _ => rfl
  have hfinally : Closed " finally " [.word "finally"] := fun _ => rfl
  obtain ⟨hspell, hapart⟩ := spells_printHandler hname hh hhandler
  have hguarded := (htry.spell (hb body hbody)).append hspell hapart
  simpa [lexemes] using hguarded.append (.led hfinally (spells_printOption hf hcleanup)) (apart_led rfl _)

end Node.Printed

namespace Node

/-- A node spells its lexemes if its children do. -/
theorem printed_of_children (hunit : ∀ c ∈ unit.toList, c = ' ') {n : Node} (h : n.Readable)
    (ih : ∀ c ∈ n.children, c.Printed unit) : n.Printed unit := by
  cases n with
  | identifier name => exact .identifier (h.name List.mem_cons_self)
  | int v =>
    obtain ⟨k, rfl⟩ := Int.eq_ofNat_of_zero_le h.plain
    exact .int k
  | float => exact h.plain.elim
  | nop => exact h.plain.elim
  | string s => exact .string s
  | breakLoop => exact .breakLoop
  | continueLoop => exact .continueLoop
  | assign t v => exact .assign (ih t (by simp [children])) (ih v (by simp [children]))
  | binary op l r => exact .binary h.plain (ih l (by simp [children])) (ih r (by simp [children]))
  | unary op x =>
    have hx : x ∈ (unary op x).children := List.mem_cons_self
    exact .unary (h.child hx) (h.expression List.mem_cons_self) (ih x hx)
  | ternary c t o =>
    exact .ternary (ih c (by simp [children])) (ih t (by simp [children])) (ih o (by simp [children]))
  | property o k => exact .property (ih o (by simp [children])) (ih k (by simp [children]))
  | call c as => exact .call (ih c (by simp [children])) fun a ha => ih a (by simp [children, ha])
  | new c as => exact .new (ih c (by simp [children])) fun a ha => ih a (by simp [children, ha])
  | function ps b => exact .function (fun p hp => ih p (by simp [children, hp])) (ih b (by simp [children]))
  | block ss => exact .block hunit ih
  | object fs => exact .object hunit (List.forall_mem_map.1 ih)
  | statement e => exact .statement (ih e List.mem_cons_self)
  | throwValue v => exact .throwValue (ih v List.mem_cons_self)
  | declare name v => exact .declare (h.name List.mem_cons_self) fun v hv => ih v (Option.mem_toList.2 hv)
  | ret v => exact .ret fun v hv => ih v (Option.mem_toList.2 hv)
  | whileLoop c b => exact .whileLoop (ih c (by simp [children])) (ih b (by simp [children]))
  | branch c b o =>
    simp only [children, List.forall_mem_cons, Option.mem_toList] at ih
    exact .branch ih.1 ih.2.1 ih.2.2
  | forLoop i c s b =>
    simp only [children, List.forall_mem_append, List.forall_mem_singleton, Option.mem_toList] at ih
    obtain ⟨⟨⟨ihi, ihc⟩, ihs⟩, ihb⟩ := ih
    exact .forLoop ihi ihc ihs ihb
  | tryCatch b hd f =>
    simp only [children, List.forall_mem_cons, List.forall_mem_append, Option.mem_toList] at ih
    obtain ⟨ihb, ihh, ihf⟩ := ih
    have hname : ∀ x ∈ hd, isIdentifierName x.binding = true := fun x hx =>
      h.name (Option.mem_toList.2 (Option.mem_map_of_mem _ hx))
    exact .tryCatch ihb hname (fun x hx => ihh _ (Option.mem_map_of_mem _ hx)) ihf

/-- The printed text spells the lexemes of the node, if lines are indented by blanks. -/
theorem spelled (hunit : ∀ c ∈ unit.toList, c = ' ') {n : Node} (h : n.Readable) : n.Printed unit := by
  induction n using induction_children with
  | step n ih => exact printed_of_children hunit h fun c hc => ih c hc (h.child hc)

end Node

end ClassScript.Script
