import ClassScript.Proofs.Script.Layout
import ClassScript.Proofs.Script.Plain
/-!
# Indentation

Indentation is white space at the start of lines and nothing else (`indentation_harmless`). Literals are printed as
they are, however deep they stand. Without its line breaks and the spaces behind them, the text of a node that is made
by constructors is what is printed without indentation, on one line. The second part needs that no line begins with a
space of its own: a text `Passes` from a line start, or from inside a line, to the next of them.
-/

namespace ClassScript.Script

/-! ## Lines put together -/

/-- The text without its line breaks, each of which goes with the spaces behind it. -/
def joinLines : List Char → List Char
  | [] => []
  | c :: cs => if c = '\n' then joinLines (cs.dropWhile (· == ' ')) else c :: joinLines cs
termination_by cs => cs.length
decreasing_by
  · exact Nat.lt_succ_of_le (List.dropWhile_sublist _).length_le
  · exact Nat.lt_succ_self _

/-- What is left of a text that begins at the start of a line, or inside of a line. -/
def joinFrom (atStart : Bool) (cs : List Char) : List Char :=
  joinLines (if atStart then cs.dropWhile (· == ' ') else cs)

variable {atStart : Bool} {c : Char} {cs : List Char}

theorem joinFrom_nil : joinFrom atStart [] = [] := by
  unfold joinFrom
  cases atStart <;> simp [joinLines]

theorem joinFrom_newline : joinFrom atStart ('\n' :: cs) = joinFrom true cs := by
  unfold joinFrom
  cases atStart <;> simp [joinLines]

theorem joinFrom_space : joinFrom true (' ' :: cs) = joinFrom true cs := by
  simp [joinFrom]

theorem joinFrom_cons (hc : c ≠ '\n') (hstart : atStart = true → c ≠ ' ') :
    joinFrom atStart (c :: cs) = c :: joinFrom false cs := by
  unfold joinFrom
  cases atStart <;> simp_all [joinLines]

theorem joinFrom_inside (hc : c ≠ '\n') : joinFrom false (c :: cs) = c :: joinFrom false cs :=
  joinFrom_cons hc (by simp)

theorem joinFrom_spaces {blanks : List Char} (h : ∀ c ∈ blanks, c = ' ') (cs : List Char) :
    joinFrom true (blanks ++ cs) = joinFrom true cs := by
  induction blanks with
  | nil => rfl
  | cons c blanks ih =>
    rw [List.forall_mem_cons] at h
    rw [h.1, List.cons_append, joinFrom_space, ih h.2]

/-- What is left of a text depends on what follows only by what is left of that. -/
theorem joinFrom_cons_congr {cs' : List Char} (h : ∀ atStart, joinFrom atStart cs = joinFrom atStart cs')
    (atStart : Bool) (c : Char) : joinFrom atStart (c :: cs) = joinFrom atStart (c :: cs') := by
  by_cases hc : c = '\n'
  · rw [hc, joinFrom_newline, joinFrom_newline, h]
  · by_cases hspace : atStart = true ∧ c = ' '
    · rw [hspace.1, hspace.2, joinFrom_space, joinFrom_space, h]
    · have hstart : atStart = true → c ≠ ' ' := fun h heq => hspace ⟨h, heq⟩
      rw [joinFrom_cons hc hstart, joinFrom_cons hc hstart, h]

theorem joinFrom_append_congr {rest rest' : List Char} (h : ∀ atStart, joinFrom atStart rest = joinFrom atStart rest')
    (atStart : Bool) (cs : List Char) : joinFrom atStart (cs ++ rest) = joinFrom atStart (cs ++ rest') := by
  induction cs generalizing atStart with
  | nil => exact h atStart
  | cons c cs ih => exact joinFrom_cons_congr ih atStart c

/-- Spaces behind line breaks make no difference. -/
theorem joinFrom_indented {unit : String} (hunit : ∀ c ∈ unit.toList, c = ' ') (atStart : Bool) (text : String)
    (rest : List Char) :
    joinFrom atStart ((indented unit text).toList ++ rest) = joinFrom atStart (text.toList ++ rest) := by
  rw [toList_indented]
  induction text.toList generalizing atStart with
  | nil => rfl
  | cons c cs ih =>
    rw [List.flatMap_cons, List.append_assoc]
    by_cases hc : c = '\n'
    · rw [if_pos hc, hc, List.cons_append, joinFrom_newline, joinFrom_spaces hunit, ih, List.cons_append,
        joinFrom_newline]
    · rw [if_neg hc]
      exact joinFrom_cons_congr ih atStart c

theorem indented_by_nothing (text : String) : indented "" text = text := by
  have hchar (c : Char) : (if c = '\n' then '\n' :: "".toList else [c]) = [c] := by
    split
    · next h => rw [h]; rfl
    · rfl
  rw [← String.toList_inj, toList_indented]
  simp only [hchar]
  exact List.flatMap_singleton' _

/-! ## Layouts on one line -/

namespace Layout

theorem joinFrom_piece {unit : String} (hunit : ∀ c ∈ unit.toList, c = ' ') (p : Piece) (atStart : Bool)
    (rest : List Char) :
    joinFrom atStart ((p.render unit).toList ++ rest) = joinFrom atStart ((p.render "").toList ++ rest) := by
  cases p with
  | literal s => rfl
  | plain depth text =>
    induction depth with
    | zero => rfl
    | succ depth ih =>
      have hunindented : ∀ c ∈ "".toList, c = ' ' := by simp
      exact (joinFrom_indented hunit _ _ rest).trans (ih.trans (joinFrom_indented hunindented _ _ rest).symm)

/-- What is left of a layout does not depend on the spaces that lines are indented by. -/
theorem joinFrom_render {unit : String} (hunit : ∀ c ∈ unit.toList, c = ' ') (l : Layout) (atStart : Bool) :
    joinFrom atStart (l.render unit).toList = joinFrom atStart (l.render "").toList := by
  induction l generalizing atStart with
  | nil => rfl
  | cons p l ih =>
    simp only [render, String.toList_append]
    rw [joinFrom_piece hunit, joinFrom_append_congr ih]

/-- The layout as one line. -/
def line (l : Layout) : List Char := (l.render "").toList.filter (· != '\n')

/-- Printed from the start of a line or inside of one, the layout leaves its characters on one line, and what follows
is at the start of a line or inside of one. -/
def Passes (atStart atStart' : Bool) (l : Layout) : Prop :=
  ∀ rest, joinFrom atStart ((l.render "").toList ++ rest) = l.line ++ joinFrom atStart' rest

/-- The layout begins with a character that is no space and ends inside of a line. -/
def Solid (l : Layout) : Prop := ∀ atStart, Passes atStart false l

variable {b b' b'' : Bool} {l m : Layout} {s : String}

theorem Passes.nil : Passes b b [] := fun _ => rfl

theorem Passes.append (hl : Passes b b' l) (hm : Passes b' b'' m) : Passes b b'' (l ++ m) := by
  intro rest
  rw [render_append, String.toList_append, List.append_assoc, hl, hm, line, line, line, render_append,
    String.toList_append, List.filter_append, List.append_assoc]

theorem Passes.nest (h : Passes b b' l) : Passes b b' (nest l) := by
  unfold Passes line
  rw [render_nest, indented_by_nothing]
  exact h

/-- Without line breaks, all stays inside of the line. -/
theorem passes_of_not_mem (h : '\n' ∉ (render "" l).toList) : Passes false false l := by
  intro rest
  unfold line
  revert h
  induction (render "" l).toList with
  | nil => exact fun _ => rfl
  | cons c cs ih =>
    intro h
    rw [List.mem_cons, not_or] at h
    rw [List.cons_append, joinFrom_inside (Ne.symm h.1), ih h.2, List.filter_cons_of_pos (by simpa using Ne.symm h.1)]
    rfl

theorem solid_of_not_mem (h : '\n' ∉ (render "" l).toList) {c : Char} (hl : (render "" l).toList.head? = some c)
    (hc : c ≠ ' ') : Solid l := by
  intro b rest
  obtain ⟨cs, hl⟩ := List.head?_eq_some_iff.1 hl
  have hinside := passes_of_not_mem h rest
  rw [hl] at h hinside ⊢
  have hnewline : c ≠ '\n' := fun heq => h (heq ▸ List.mem_cons_self)
  rw [List.cons_append, joinFrom_inside hnewline] at hinside
  rw [List.cons_append, joinFrom_cons hnewline fun _ => hc, hinside]

theorem Passes.text (s : String) (h : '\n' ∉ s.toList) : Passes false false (text s) :=
  passes_of_not_mem (by simpa using h)

theorem Solid.text (s : String) (h : '\n' ∉ s.toList) {c : Char} (hs : s.toList.head? = some c) (hc : c ≠ ' ') :
    Solid (text s) := solid_of_not_mem (by simpa using h) (by simpa using hs) hc

theorem Solid.literal (s : String) : Solid [.literal s] :=
  solid_of_not_mem (c := '"') (by simpa using Quoted.newline_not_mem_quote s) (by simp [Quoted.quote]) (by decide)

theorem Solid.append (hl : Solid l) (hm : Passes false false m) : Solid (l ++ m) := fun b => (hl b).append hm

theorem Solid.wrapped (hl : Solid l) (wrap : Bool) : Solid (wrapped wrap l) := by
  have hopen : Solid (Layout.text "(") := .text _ (by decide) rfl (by decide)
  cases wrap with
  | false => exact hl
  | true => exact (hopen.append (hl false)).append (.text _ (by decide))

/-- Entries begin anew behind a separator, be it at the start of a line or not. -/
theorem Solid.separated {entries : List Layout} (hsep : Passes false b (Layout.text s)) (hne : entries ≠ [])
    (h : ∀ l ∈ entries, Solid l) : Solid (separated s entries) := by
  unfold Layout.separated
  induction entries with
  | nil => exact absurd rfl hne
  | cons l entries ih =>
    rw [List.forall_mem_cons] at h
    cases entries with
    | nil =>
      rw [List.intercalate_singleton]
      exact h.1
    | cons m entries =>
      rw [List.intercalate_cons_cons]
      exact fun b' => ((h.1 b').append hsep).append (ih (List.cons_ne_nil _ _) h.2 b)

theorem Passes.separated {entries : List Layout} (h : ∀ l ∈ entries, Solid l) :
    Passes false false (separated ", " entries) := by
  cases entries with
  | nil => exact .nil
  | cons l entries => exact Solid.separated (.text _ (by decide)) (List.cons_ne_nil _ _) h false

theorem Solid.enclosed {entries : List Layout} (hsep : Passes false b (Layout.text s)) (h : ∀ l ∈ entries, Solid l) :
    Solid (enclosed s entries) := by
  unfold Layout.enclosed
  cases entries with
  | nil => exact .text _ (by decide) rfl (by decide)
  | cons l entries =>
    have hopen (b : Bool) : Passes b true (Layout.text "\x7b\n") := fun rest =>
      (joinFrom_cons (c := '\x7b') (by decide) fun _ => by decide).trans (congrArg _ joinFrom_newline)
    have hclose : Passes false false (Layout.text "\n\x7d") := fun rest =>
      joinFrom_newline.trans (joinFrom_cons (c := '\x7d') (by decide) fun _ => by decide)
    have hentries := Solid.separated hsep (List.cons_ne_nil l entries) h
    exact fun b => ((hopen b).append (hentries true)).nest.append hclose

end Layout

/-! ## Words and numbers -/

/-- The text is not empty, and it has neither spaces nor line breaks. -/
structure Unbroken (s : String) : Prop where
  ne_nil : s.toList ≠ []
  chars : ∀ c ∈ s.toList, c ≠ ' ' ∧ c ≠ '\n'

namespace Unbroken

variable {s t : String}

theorem ofList {cs : List Char} (hne : cs ≠ []) (h : ∀ c ∈ cs, c ≠ ' ' ∧ c ≠ '\n') : Unbroken (String.ofList cs) :=
  ⟨by rwa [String.toList_ofList], by rwa [String.toList_ofList]⟩

theorem of_all (h : (s.toList.all fun c => c != ' ' && c != '\n') = true) (hne : s.toList ≠ []) : Unbroken s :=
  ⟨hne, fun c hc => by simpa using List.all_eq_true.1 h c hc⟩

theorem append (hs : Unbroken s) (ht : Unbroken t) : Unbroken (s ++ t) where
  ne_nil := by simp [hs.ne_nil]
  chars c hc := by
    rw [String.toList_append, List.mem_append] at hc
    exact hc.elim (hs.chars c) (ht.chars c)

theorem signed (ht : Unbroken t) (p : Prop) [Decidable p] : Unbroken ((if p then "-" else "") ++ t) := by
  split
  · exact .append (.of_all rfl (by decide)) ht
  · rwa [String.empty_append]

theorem of_isDigit {c : Char} (h : c.isDigit = true) : c ≠ ' ' ∧ c ≠ '\n' := by
  constructor <;> rintro rfl <;> cases h

theorem identifier (h : isIdentifierName s = true) : Unbroken s where
  ne_nil := (isWord_of_isIdentifierName h).1
  chars c hc := by
    have hname := (isWord_of_isIdentifierName h).2 c hc
    constructor <;> rintro rfl <;> cases hname

theorem nat (n : Nat) : Unbroken (toString n) where
  ne_nil := (isWord_toString n).1
  chars _ hc := of_isDigit (isDigit_of_mem_toString hc)

theorem int (v : Int) : Unbroken (toString v) := by
  cases v with
  | ofNat n => exact nat n
  | negSucc n => exact .append (s := "-") (.of_all rfl (by decide)) (nat (n + 1))

theorem positional (digits : Nat) (exponent : Int) : Unbroken (Decimal.positional digits exponent) := by
  have hdigits (n : Nat) : ∀ c ∈ Nat.toDigits 10 n, c ≠ ' ' ∧ c ≠ '\n' := fun c hc =>
    of_isDigit (Nat.isDigit_of_mem_toDigits (by decide) (by decide) hc)
  have hzeros (n : Nat) : ∀ c ∈ List.replicate n '0', c ≠ ' ' ∧ c ≠ '\n' := fun c hc =>
    of_isDigit (List.eq_of_mem_replicate hc ▸ rfl)
  have hpoint : '.' ≠ ' ' ∧ '.' ≠ '\n' := by decide
  unfold Decimal.positional
  generalize Decimal.trimZeros digits exponent = x
  obtain ⟨n, e⟩ := x
  dsimp only
  split
  · exact ofList (by simp) (List.forall_mem_append.2 ⟨hdigits n, hzeros _⟩)
  · split
    · refine ofList (by simp) (List.forall_mem_append.2 ⟨fun c hc => hdigits n c (List.mem_of_mem_take hc), ?_⟩)
      exact List.forall_mem_cons.2 ⟨hpoint, fun c hc => hdigits n c (List.mem_of_mem_drop hc)⟩
    · refine ofList (List.cons_ne_nil _ _) (List.forall_mem_cons.2 ⟨by decide, List.forall_mem_cons.2 ⟨hpoint, ?_⟩⟩)
      exact List.forall_mem_append.2 ⟨hzeros _, hdigits n⟩

theorem float (v : Float) : Unbroken (Decimal.literal v) := by
  have htext (m : Decimal.Magnitude) : Unbroken m.text := by
    unfold Decimal.Magnitude.text
    split
    · exact .of_all rfl (by decide)
    · exact positional _ _
  unfold Decimal.literal
  dsimp only
  split
  · exact .of_all rfl (by decide)
  · split
    · exact .signed (.of_all rfl (by decide)) _
    · split
      · split
        · rw [String.append_assoc]
          exact .signed ((nat _).append (.of_all rfl (by decide))) _
        · exact (htext _).signed _
      · exact (htext _).signed _

end Unbroken

/-! ## Nodes -/

open Layout

theorem Unbroken.newline_not_mem {s : String} (h : Unbroken s) : '\n' ∉ s.toList := fun hmem => (h.chars _ hmem).2 rfl

theorem Unbroken.solid {s : String} (h : Unbroken s) : Solid (text s) := by
  obtain ⟨c, cs, hs⟩ := List.exists_cons_of_ne_nil h.ne_nil
  exact .text s h.newline_not_mem (by rw [hs]; rfl) (h.chars c (hs ▸ List.mem_cons_self)).1

namespace Node

/-- Nothing but the absence of a statement is printed as nothing, and it stands in blocks only. -/
theorem ne_nop_of_admits {r : Role} {n : Node} (h : r.admits n = true) (hr : r ≠ .entry) : n ≠ .nop := by
  rintro rfl
  cases r <;> first | exact hr rfl | cases h

theorem passes_optionLayout {lead : String} (hlead : '\n' ∉ lead.toList) {o : Option Node}
    (h : ∀ e ∈ o, Solid e.layout) : Passes false false (((optionLayout o).map (text lead ++ ·)).getD []) := by
  cases o with
  | none => exact .nil
  | some e => exact Passes.append (.text _ hlead) (h e rfl false)

theorem passes_optionLayout_getD {o : Option Node} (h : ∀ e ∈ o, Solid e.layout) :
    Passes false false ((optionLayout o).getD []) := by
  cases o with
  | none => exact .nil
  | some e => exact h e rfl false

theorem passes_layouts {ns : List Node} (h : ∀ n ∈ ns, Solid n.layout) :
    Passes false false (separated ", " (layouts ns)) := by
  rw [layouts_eq_map]
  exact .separated (List.forall_mem_map.2 h)

/-- A node begins with no space and ends inside of a line if its parts do so. A part that is not printed is left out of
its block. -/
theorem solid_of_roles {n : Node} (hn : n ≠ .nop) (hnames : ∀ s ∈ n.names, isIdentifierName s = true)
    (h : ∀ x ∈ n.roles, x.1 ≠ .entry → Solid x.2.layout)
    (hentries : ∀ c, (.entry, c) ∈ n.roles → c ≠ .nop → Solid c.layout) : Solid n.layout := by
  cases n with
  | identifier name => exact (Unbroken.identifier (hnames name List.mem_cons_self)).solid
  | int v => exact (Unbroken.int v).solid
  | float v => exact (Unbroken.float v).solid
  | string s => exact .literal s
  | nop => exact absurd rfl hn
  | breakLoop | continueLoop => exact .text _ (by decide) rfl (by decide)
  | assign t v =>
    obtain ⟨ht, hv⟩ : Solid t.layout ∧ Solid v.layout := by simpa [roles] using h
    exact (ht.append (.text _ (by decide))).append (hv false)
  | binary op l r =>
    obtain ⟨hl, hr⟩ : Solid l.layout ∧ Solid r.layout := by simpa [roles] using h
    have hop : '\n' ∉ (" " ++ op.symbol ++ " ").toList := by cases op <;> decide
    exact ((hl.wrapped _).append (.text _ hop)).append (hr.wrapped _ false)
  | unary op x =>
    have hx : Solid x.layout := by simpa [roles] using h
    have hop : Solid (text (if op.isWord then op.symbol ++ " " else op.symbol)) := by
      cases op <;> exact .text _ (by decide) rfl (by decide)
    exact hop.append (hx.wrapped _ false)
  | ternary c t o =>
    obtain ⟨hc, ht, ho⟩ : Solid c.layout ∧ Solid t.layout ∧ Solid o.layout := by simpa [roles] using h
    have hthen := ((hc.wrapped c.wrapsInTernary).append (.text " ? " (by decide))).append
      (ht.wrapped t.wrapsInTernary false)
    exact (hthen.append (.text _ (by decide))).append (ho.wrapped _ false)
  | property o k =>
    obtain ⟨ho, hk⟩ : Solid o.layout ∧ Solid k.layout := by simpa [roles] using h
    refine (ho.wrapped _).append ?_
    split
    · exact Passes.append (.text _ (by decide)) (hk false)
    · exact (Passes.append (.text _ (by decide)) (hk false)).append (.text _ (by decide))
  | call c as =>
    obtain ⟨hc, has⟩ : Solid c.layout ∧ ∀ a ∈ as, Solid a.layout := by simpa [roles] using h
    exact (((hc.wrapped _).append (.text _ (by decide))).append (passes_layouts has)).append (.text _ (by decide))
  | new c as =>
    obtain ⟨hc, has⟩ : Solid c.layout ∧ ∀ a ∈ as, Solid a.layout := by simpa [roles] using h
    have hnew : Solid (text "new ") := .text _ (by decide) rfl (by decide)
    have hcls := (hnew.append (hc.wrapped c.wrapsAsClass false)).append (.text "(" (by decide))
    exact (hcls.append (passes_layouts has)).append (.text _ (by decide))
  | function ps b =>
    obtain ⟨hps, hb⟩ : (∀ p ∈ ps, Solid p.layout) ∧ Solid b.layout := by simpa [roles, or_imp, forall_and] using h
    have hopen : Solid (text "function (") := .text _ (by decide) rfl (by decide)
    exact ((hopen.append (passes_layouts hps)).append (.text _ (by decide))).append (hb false)
  | block ss =>
    have hbreak : Passes false true (text "\n") := fun _ => joinFrom_newline
    refine .enclosed hbreak fun l hl => ?_
    obtain ⟨hl, hblank⟩ := List.mem_filter.1 hl
    rw [layouts_eq_map, List.mem_map] at hl
    obtain ⟨s, hs, rfl⟩ := hl
    refine hentries s (by simpa [roles] using hs) ?_
    -- a statement that is not printed has been left out
    rintro rfl
    cases hblank
  | statement e =>
    have he : Solid e.layout := by simpa [roles] using h
    exact (he.wrapped _).append (.text _ (by decide))
  | object fs =>
    have hfs : ∀ f ∈ fs, Solid f.value.layout := by simpa [roles] using h
    have hcomma : Passes false true (text ",\n") := fun _ =>
      (joinFrom_inside (c := ',') (by decide)).trans (congrArg _ joinFrom_newline)
    refine .enclosed hcomma ?_
    rw [fieldLayouts_eq_map, List.forall_mem_map]
    exact fun f hf => ((Solid.literal f.key).append (.text _ (by decide))).append (hfs f hf false)
  | declare name value =>
    have hvalue : ∀ v ∈ value, Solid v.layout := by simpa [roles] using h
    have hname := (Unbroken.identifier (hnames name List.mem_cons_self)).newline_not_mem
    have hdeclare (rest : String) (hrest : '\n' ∉ rest.toList) : Solid (text ("var " ++ name ++ rest)) :=
      .text (c := 'v') _ (by simp [hname, hrest]) (by simp) (by decide)
    cases value with
    | none => exact hdeclare ";" (by decide)
    | some v => exact ((hdeclare " = " (by decide)).append (hvalue v rfl false)).append (.text _ (by decide))
  | ret value =>
    have hvalue : ∀ v ∈ value, Solid v.layout := by simpa [roles] using h
    have hret : Solid (text "return ") := .text _ (by decide) rfl (by decide)
    cases value with
    | none => exact .text _ (by decide) rfl (by decide)
    | some v => exact (hret.append (hvalue v rfl false)).append (.text _ (by decide))
  | branch c b o =>
    obtain ⟨hc, hb, ho⟩ : Solid c.layout ∧ Solid b.layout ∧ ∀ e ∈ o, Solid e.layout := by simpa [roles] using h
    have hopen : Solid (text "if (") := .text _ (by decide) rfl (by decide)
    have hthen := ((hopen.append (hc false)).append (.text ") " (by decide))).append (hb false)
    exact hthen.append (passes_optionLayout (by decide) ho)
  | whileLoop c b =>
    obtain ⟨hc, hb⟩ : Solid c.layout ∧ Solid b.layout := by simpa [roles] using h
    have hopen : Solid (text "while (") := .text _ (by decide) rfl (by decide)
    exact ((hopen.append (hc false)).append (.text _ (by decide))).append (hb false)
  | forLoop i c s b =>
    have hheader : ∀ e ∈ i.toList ++ c.toList ++ s.toList, Solid e.layout := fun e he =>
      h (.expression, e) (List.mem_append_left _ (List.mem_map_of_mem he)) (by simp)
    simp only [List.forall_mem_append, Option.mem_toList] at hheader
    obtain ⟨⟨hi, hc⟩, hs⟩ := hheader
    have hb : Solid b.layout := h (.body, b) (List.mem_append_right _ List.mem_cons_self) (by simp)
    have hopen : Solid (text "for (") := .text _ (by decide) rfl (by decide)
    have hinit := (hopen.append (passes_optionLayout_getD hi)).append (.text "; " (by decide))
    have htest := (hinit.append (passes_optionLayout_getD hc)).append (.text "; " (by decide))
    exact ((htest.append (passes_optionLayout_getD hs)).append (.text _ (by decide))).append (hb false)
  | tryCatch b hd f =>
    have hb : Solid b.layout := h (.body, b) List.mem_cons_self (by simp)
    have hguards : ∀ g ∈ (hd.map (·.body)).toList ++ f.toList, Solid g.layout := fun g hg =>
      h (.guard, g) (List.mem_cons_of_mem _ (List.mem_map_of_mem hg)) (by simp)
    simp only [List.forall_mem_append, Option.mem_toList] at hguards
    have htry : Solid (text "try ") := .text _ (by decide) rfl (by decide)
    have hhandler : Passes false false (handlerLayout hd) := by
      rcases hd with _ | ⟨binding, body⟩
      · exact .nil
      · have hbinding := (Unbroken.identifier (hnames binding List.mem_cons_self)).newline_not_mem
        exact Passes.append (.text _ (by simp [hbinding])) (hguards.1 body rfl false)
    exact ((htry.append (hb false)).append hhandler).append (passes_optionLayout (by decide) hguards.2)
  | throwValue v =>
    have hv : Solid v.layout := by simpa [roles] using h
    have hthrow : Solid (text "throw ") := .text _ (by decide) rfl (by decide)
    exact (hthrow.append (hv false)).append (.text _ (by decide))

/-- The text of a well-formed node begins with no space, and it ends inside of a line. -/
theorem Sound.solid {n : Node} (h : n.Sound) (hn : n ≠ .nop) : Solid n.layout := by
  induction n using induction_children with
  | step n ih =>
    obtain ⟨hformed, hchildren⟩ := sound_iff.1 h
    have hpart : ∀ x ∈ n.roles, x.2 ≠ .nop → Solid x.2.layout := fun x hx =>
      have hchild : x.2 ∈ n.children := children_eq_roles n ▸ List.mem_map_of_mem hx
      ih x.2 hchild (hchildren x.2 hchild)
    refine solid_of_roles hn hformed.names (fun x hx hr => ?_) fun c hc => hpart _ hc
    exact hpart x hx (ne_nop_of_admits (hformed.roles x hx) hr)

/-- On one line, a well-formed node is printed the same with and without indentation. -/
theorem Sound.joinLines_print {n : Node} (h : n.Sound) {text flat : String} (hp : n.print = .ok text)
    (hflat : n.printWith "" = .ok flat) : joinLines text.toList = flat.toList.filter (· != '\n') := by
  have hunit : ∀ c ∈ indentUnit.toList, c = ' ' := by simp [indentUnit]
  rw [printWith_eq_render hp, printWith_eq_render hflat]
  refine (joinFrom_render hunit n.layout false).trans ?_
  by_cases hn : n = .nop
  · rw [hn]
    exact joinFrom_nil
  · have hsolid := h.solid hn false []
    rwa [List.append_nil, joinFrom_nil, List.append_nil] at hsolid

end Node

/-- Indentation never changes what a text says. Every string and every key of an object is in the printed text as its
literal, which has no line break and gives the string back. And if a node is made by constructors, its text without
the line breaks and the spaces behind them is what is printed without indentation, on one line. -/
theorem indentation_harmless :
    (∀ {n : Node} {text : String}, n.print = .ok text →
      text = n.layout.render indentUnit ∧ n.layout.literals.Perm (n.all.flatMap Node.texts)) ∧
    (∀ s, '\n' ∉ (Quoted.quote s).toList ∧
      ∃ inside, (Quoted.quote s).toList = '"' :: (inside ++ ['"']) ∧ Quoted.decode inside = some s.toList) ∧
    ∀ {n : Node}, Constructed n → ∃ text flat, n.print = .ok text ∧ n.printWith "" = .ok flat ∧
      joinLines text.toList = flat.toList.filter (· != '\n') := by
  refine ⟨fun h => ⟨Node.printWith_eq_render h, Node.literals_layout _⟩, fun s => ?_, fun {n} h => ?_⟩
  · exact ⟨Quoted.newline_not_mem_quote s, _, String.toList_ofList, Quoted.decode_encode s.toList⟩
  · have hprints (unit : String) : Succeeds (n.printWith unit) :=
      (Node.prints_iff n).2 fun m hm => (h.formed m hm).hasBlocks
    obtain ⟨text, htext⟩ := hprints indentUnit
    obtain ⟨flat, hflat⟩ := hprints ""
    exact ⟨text, flat, htext, hflat, h.formed.joinLines_print htext hflat⟩

/-- A function that returns an object. The key and the value have line breaks with spaces behind them. -/
def nestedObject : Node := .function [] (.block [.ret (some (.object [⟨"a\n b", .string "c\n    d"⟩]))])

theorem constructed_nestedObject : Constructed nestedObject := by
  have hobject := Constructed.object (List.forall_mem_singleton.2 (.string "c\n    d"))
    (rfl : object [⟨"a\n b", .string "c\n    d"⟩] = .ok _)
  have hret := Constructed.ret (fun _ hv => Option.mem_some.1 hv ▸ hobject) rfl
  exact .function (List.forall_mem_nil _) (List.forall_mem_singleton.2 hret) rfl

theorem nestedObject_harmless : ∃ text flat, nestedObject.print = .ok text ∧ nestedObject.printWith "" = .ok flat ∧
    text = nestedObject.layout.render indentUnit ∧
    nestedObject.layout.literals.Perm (nestedObject.all.flatMap Node.texts) ∧
    joinLines text.toList = flat.toList.filter (· != '\n') := by
  obtain ⟨text, flat, htext, hflat, hjoined⟩ := indentation_harmless.2.2 constructed_nestedObject
  obtain ⟨hlayout, hliterals⟩ := indentation_harmless.1 htext
  exact ⟨text, flat, htext, hflat, hlayout, hliterals, hjoined⟩

example : nestedObject.print = .ok
    "function () \x7b\n    return \x7b\n        \"a\\n b\": \"c\\n    d\"\n    \x7d;\n\x7d" := by
  rfl

end ClassScript.Script
