import ClassScript.Proofs.Script.Made
import ClassScript.Proofs.Script.Printable
import ClassScript.Proofs.Text.Quoted
import Mathlib.Data.List.Perm.Basic
/-!
# Layouts

Printing puts together texts, and it indents a text once for each pair of braces around it, whatever the text is. A
layout takes the printed text apart again: into the literals of strings, and into other text with the number of times
that it is indented. What a node is printed as is its layout rendered (`Node.printWith_eq_render`). A literal has no
line break, so indentation does not touch it, and the literals of the layout are those of the node
(`Node.literals_layout`).
-/

namespace ClassScript.Script

/-! ## Indentation -/

theorem toList_indented (unit text : String) : (indented unit text).toList =
    text.toList.flatMap fun c => if c = '\n' then '\n' :: unit.toList else [c] := String.toList_ofList

theorem indented_append (unit a b : String) : indented unit (a ++ b) = indented unit a ++ indented unit b := by
  simp [← String.toList_inj, toList_indented]

theorem indented_of_not_mem {unit text : String} (h : '\n' ∉ text.toList) : indented unit text = text := by
  have hmap : ∀ c ∈ text.toList, (if c = '\n' then '\n' :: unit.toList else [c]) = [c] := by
    intro c hc
    rw [if_neg]
    rintro rfl
    exact h hc
  rw [← String.toList_inj, toList_indented, List.flatMap_def, List.map_congr_left hmap, ← List.flatMap_def]
  exact List.flatMap_singleton' _

theorem indented_eq_empty_iff {unit text : String} : indented unit text = "" ↔ text = "" := by
  rw [← String.toList_eq_nil_iff, toList_indented, ← String.toList_eq_nil_iff]
  cases text.toList with
  | nil => simp
  | cons c cs => by_cases hc : c = '\n' <;> simp [hc]

/-! ## Pieces -/

inductive Piece where
  /-- The literal of a text. -/
  | literal (s : String)
  /-- Other text, and how often it is indented. -/
  | plain (depth : Nat) (text : String)

namespace Piece

def render (unit : String) : Piece → String
  | literal s => Quoted.quote s
  | plain depth text => Nat.repeat (indented unit) depth text

/-- The piece between one more pair of braces. -/
def nest : Piece → Piece
  | literal s => literal s
  | plain depth text => plain (depth + 1) text

def literal? : Piece → Option String
  | literal s => some s
  | plain .. => none

theorem render_nest (unit : String) (p : Piece) : p.nest.render unit = indented unit (p.render unit) := by
  cases p with
  | literal s => exact (indented_of_not_mem (Quoted.newline_not_mem_quote s)).symm
  | plain depth text => rfl

theorem literal?_nest (p : Piece) : p.nest.literal? = p.literal? := by cases p <;> rfl

/-- Whether a piece is empty does not depend on the indentation. -/
theorem render_eq_empty_iff {unit unit' : String} {p : Piece} : p.render unit = "" ↔ p.render unit' = "" := by
  cases p with
  | literal s => rfl
  | plain depth text =>
    induction depth with
    | zero => rfl
    | succ depth ih => exact indented_eq_empty_iff.trans (ih.trans indented_eq_empty_iff.symm)

end Piece

/-! ## Layouts -/

abbrev Layout := List Piece

namespace Layout

def render (unit : String) : Layout → String
  | [] => ""
  | p :: ps => p.render unit ++ render unit ps

/-- The literals of a layout, from left to right. -/
def literals (l : Layout) : List String := l.filterMap Piece.literal?

def nest (l : Layout) : Layout := l.map Piece.nest

/-- Text outside of all braces. -/
def text (s : String) : Layout := [.plain 0 s]

/-- Whether nothing is printed. -/
def isBlank (l : Layout) : Bool := (l.render "").isEmpty

def wrapped (wrap : Bool) (l : Layout) : Layout := if wrap then text "(" ++ l ++ text ")" else l

def separated (separator : String) (entries : List Layout) : Layout := (text separator).intercalate entries

/-- The entries between braces, each on lines of its own. -/
def enclosed (separator : String) (entries : List Layout) : Layout :=
  if entries.isEmpty then text "\x7b\x7d"
  else nest (text "\x7b\n" ++ separated separator entries) ++ text "\n\x7d"

variable {unit : String}

@[simp] theorem render_nil : render unit [] = "" := rfl

@[simp] theorem render_text (s : String) : render unit (text s) = s := String.append_empty

@[simp] theorem render_literal (s : String) : render unit [.literal s] = Quoted.quote s := String.append_empty

@[simp] theorem render_append (l m : Layout) : render unit (l ++ m) = render unit l ++ render unit m := by
  induction l with
  | nil => exact String.empty_append.symm
  | cons p l ih => rw [List.cons_append, render, ih, render, String.append_assoc]

@[simp] theorem render_nest (l : Layout) : render unit (nest l) = indented unit (render unit l) := by
  induction l with
  | nil => rfl
  | cons p l ih =>
    change p.nest.render unit ++ render unit (nest l) = _
    rw [ih, Piece.render_nest, ← indented_append, render]

@[simp] theorem render_wrapped (wrap : Bool) (l : Layout) :
    render unit (wrapped wrap l) = parenthesised wrap (render unit l) := by
  cases wrap <;> simp [wrapped, parenthesised, String.append_assoc]

@[simp] theorem render_separated (separator : String) (entries : List Layout) :
    render unit (separated separator entries) = separator.intercalate (entries.map (render unit)) := by
  unfold separated
  induction entries with
  | nil => rfl
  | cons l entries ih =>
    cases entries with
    | nil => simp
    | cons m entries =>
      rw [List.intercalate_cons_cons, render_append, render_append, ih, render_text]
      simp [String.append_assoc]

@[simp] theorem render_enclosed (separator : String) (entries : List Layout) :
    render unit (enclosed separator entries) = braced unit separator (entries.map (render unit)) := by
  have hopen : indented unit "\x7b\n" = "\x7b\n" ++ unit := by simp [← String.toList_inj, toList_indented]
  cases entries with
  | nil => rfl
  | cons l entries =>
    simp [enclosed, braced, indented_append, hopen, String.append_assoc]

theorem render_eq_empty_iff {unit' : String} {l : Layout} : render unit l = "" ↔ render unit' l = "" := by
  induction l with
  | nil => rfl
  | cons p l ih =>
    rw [render, render, String.append_eq_empty_iff, String.append_eq_empty_iff]
    exact and_congr Piece.render_eq_empty_iff ih

theorem render_getD (l : Option Layout) : render unit (l.getD []) = (l.map (render unit)).getD "" := by cases l <;> rfl

theorem isEmpty_render (l : Layout) : (render unit l).isEmpty = isBlank l := by
  rw [isBlank, Bool.eq_iff_iff, String.isEmpty_iff, String.isEmpty_iff, render_eq_empty_iff]

@[simp] theorem literals_append (l m : Layout) : (l ++ m).literals = l.literals ++ m.literals :=
  List.filterMap_append

@[simp] theorem literals_nil : literals [] = [] := rfl

@[simp] theorem literals_literal (s : String) : literals [.literal s] = [s] := rfl

@[simp] theorem literals_text (s : String) : (text s).literals = [] := rfl

@[simp] theorem literals_nest (l : Layout) : l.nest.literals = l.literals := by
  simp [literals, nest, List.filterMap_map, Piece.literal?_nest]

@[simp] theorem literals_wrapped (wrap : Bool) (l : Layout) : (wrapped wrap l).literals = l.literals := by
  cases wrap <;> simp [wrapped]

@[simp] theorem literals_separated (separator : String) (entries : List Layout) :
    (separated separator entries).literals = entries.flatMap literals := by
  unfold separated
  induction entries with
  | nil => rfl
  | cons l entries ih =>
    cases entries with
    | nil => simp
    | cons m entries => simp_all

@[simp] theorem literals_enclosed (separator : String) (entries : List Layout) :
    (enclosed separator entries).literals = entries.flatMap literals := by
  cases entries with
  | nil => rfl
  | cons l entries => simp [enclosed]

/-- Where nothing is printed there is no literal. -/
theorem literals_of_isBlank {l : Layout} (h : isBlank l = true) : literals l = [] := by
  rw [isBlank, String.isEmpty_iff] at h
  induction l with
  | nil => rfl
  | cons p l ih =>
    rw [render, String.append_eq_empty_iff] at h
    cases p with
    | literal s => simp [Piece.render, Quoted.quote] at h
    | plain => exact ih h.2

theorem flatMap_literals_filter (entries : List Layout) :
    (entries.filter (!isBlank ·)).flatMap literals = entries.flatMap literals := by
  induction entries with
  | nil => rfl
  | cons l entries ih => cases hl : isBlank l <;> simp [hl, ih, literals_of_isBlank]

end Layout

/-! ## Layouts of nodes -/

open Layout

mutual

/-- The layout of what a node is printed as. -/
def Node.layout : Node → Layout
  | .identifier name => text name
  | .int v => text (toString v)
  | .float v => text (Decimal.literal v)
  | .string v => [.literal v]
  | .assign t v => t.layout ++ text " = " ++ v.layout
  | .declare name value => match optionLayout value with
    | some value => text ("var " ++ name ++ " = ") ++ value ++ text ";"
    | none => text ("var " ++ name ++ ";")
  | .binary op l r => wrapped l.wrapsAsOperand l.layout ++ text (" " ++ op.symbol ++ " ")
      ++ wrapped r.wrapsAsOperand r.layout
  | .unary op x => text (if op.isWord then op.symbol ++ " " else op.symbol) ++ wrapped x.wrapsUnderUnary x.layout
  | .ternary c t o => wrapped c.wrapsInTernary c.layout ++ text " ? "
      ++ wrapped t.wrapsInTernary t.layout ++ text " : " ++ wrapped o.wrapsInTernary o.layout
  | .property o k => wrapped o.wrapsAsObject o.layout
      ++ (if k.isIdentifier then text "." ++ k.layout else text "[" ++ k.layout ++ text "]")
  | .call c as => wrapped c.wrapsAsCallee c.layout ++ text "(" ++ separated ", " (layouts as) ++ text ")"
  | .new c as => text "new " ++ wrapped c.wrapsAsClass c.layout ++ text "(" ++ separated ", " (layouts as)
      ++ text ")"
  | .function ps b => text "function (" ++ separated ", " (layouts ps) ++ text ") " ++ b.layout
  | .block ss => enclosed "\n" ((layouts ss).filter (!isBlank ·))
  | .statement e => wrapped e.wrapsAsStatement e.layout ++ text ";"
  | .object fs => enclosed ",\n" (fieldLayouts fs)
  | .ret value => match optionLayout value with
    | some value => text "return " ++ value ++ text ";"
    | none => text "return;"
  | .branch c t o => text "if (" ++ c.layout ++ text ") " ++ t.layout
      ++ ((optionLayout o).map (text " else " ++ ·)).getD []
  | .whileLoop c b => text "while (" ++ c.layout ++ text ") " ++ b.layout
  | .forLoop i c s b => text "for (" ++ (optionLayout i).getD [] ++ text "; " ++ (optionLayout c).getD [] ++ text "; "
      ++ (optionLayout s).getD [] ++ text ") " ++ b.layout
  | .tryCatch b h f => text "try " ++ b.layout ++ handlerLayout h
      ++ ((optionLayout f).map (text " finally " ++ ·)).getD []
  | .throwValue v => text "throw " ++ v.layout ++ text ";"
  | .breakLoop => text "break;"
  | .continueLoop => text "continue;"
  | .nop => []

def layouts : List Node → List Layout
  | [] => []
  | n :: ns => n.layout :: layouts ns

def optionLayout : Option Node → Option Layout
  | none => none
  | some n => some n.layout

def fieldLayouts : List Field → List Layout
  | [] => []
  | ⟨key, value⟩ :: fs => ([.literal key] ++ text ": " ++ value.layout) :: fieldLayouts fs

def handlerLayout : Option Handler → Layout
  | none => []
  | some ⟨binding, body⟩ => text (" catch (" ++ binding ++ ") ") ++ body.layout

end

theorem layouts_eq_map (ns : List Node) : layouts ns = ns.map Node.layout := by
  induction ns with
  | nil => rfl
  | cons n ns ih => rw [layouts, ih, List.map_cons]

theorem fieldLayouts_eq_map (fs : List Field) :
    fieldLayouts fs = fs.map fun f => [.literal f.key] ++ text ": " ++ f.value.layout := by
  induction fs with
  | nil => rfl
  | cons f fs ih =>
    obtain ⟨key, value⟩ := f
    rw [fieldLayouts, ih, List.map_cons]

/-! ## Printing -/

/-- All that the node is printed as is its layout rendered. -/
def Node.Laid (unit : String) (n : Node) : Prop := ∀ text, n.printWith unit = .ok text → text = n.layout.render unit

variable {unit : String}

theorem printAll_laid {ns : List Node} (h : ∀ n ∈ ns, n.Laid unit) {texts : List String}
    (hp : printAll unit ns = .ok texts) : texts = (layouts ns).map (render unit) := by
  induction ns generalizing texts with
  | nil => exact ok_eq_ok.1 hp
  | cons n ns ih =>
    rw [List.forall_mem_cons] at h
    obtain ⟨text, htext, hp⟩ := bind_eq_ok.1 hp
    obtain ⟨texts, htexts, hp⟩ := bind_eq_ok.1 hp
    obtain rfl := ok_eq_ok.1 hp
    rw [h.1 text htext, ih h.2 htexts, layouts, List.map_cons]

theorem printOption_laid {value : Option Node} (h : ∀ n ∈ value, n.Laid unit) {text : Option String}
    (hp : printOption unit value = .ok text) : text = (optionLayout value).map (render unit) := by
  cases value with
  | none => exact ok_eq_ok.1 hp
  | some n =>
    obtain ⟨text, htext, hp⟩ := bind_eq_ok.1 hp
    obtain rfl := ok_eq_ok.1 hp
    rw [h n rfl text htext, optionLayout, Option.map_some]

theorem printFields_laid {fs : List Field} (h : ∀ f ∈ fs, f.value.Laid unit) {texts : List String}
    (hp : printFields unit fs = .ok texts) : texts = (fieldLayouts fs).map (render unit) := by
  induction fs generalizing texts with
  | nil => exact ok_eq_ok.1 hp
  | cons f fs ih =>
    rw [List.forall_mem_cons] at h
    obtain ⟨key, value⟩ := f
    obtain ⟨text, htext, hp⟩ := bind_eq_ok.1 hp
    obtain ⟨texts, htexts, hp⟩ := bind_eq_ok.1 hp
    obtain rfl := ok_eq_ok.1 hp
    rw [h.1 text htext, ih h.2 htexts, fieldLayouts, List.map_cons, render_append, render_append, render_literal,
      render_text]

theorem printHandler_laid {handler : Option Handler} (h : ∀ h ∈ handler, h.body.Laid unit) {text : String}
    (hp : printHandler unit handler = .ok text) : text = (handlerLayout handler).render unit := by
  cases handler with
  | none => exact ok_eq_ok.1 hp
  | some handler =>
    obtain ⟨binding, body⟩ := handler
    obtain ⟨text, htext, hp⟩ := bind_eq_ok.1 hp
    obtain rfl := ok_eq_ok.1 hp
    rw [h _ rfl text htext, handlerLayout, render_append, render_text]

/-- Entries without text are left out, however lines are indented. -/
theorem filter_render (entries : List Layout) :
    (entries.map (render unit)).filter (!·.isEmpty) = (entries.filter (!isBlank ·)).map (render unit) := by
  simp [List.filter_map, Function.comp_def, isEmpty_render]

namespace Node

/-- A node is printed as its layout if its children are. -/
theorem laid_of_children {n : Node} (ih : ∀ c ∈ n.children, c.Laid unit) : n.Laid unit := by
  intro text hp
  cases n with
  | identifier | int | float | string | breakLoop | continueLoop | nop =>
    obtain rfl := ok_eq_ok.1 hp
    simp [layout]
  | assign t v =>
    obtain ⟨target, ht, hp⟩ := bind_eq_ok.1 hp
    obtain ⟨value, hv, hp⟩ := bind_eq_ok.1 hp
    obtain rfl := ok_eq_ok.1 hp
    rw [ih t (by simp [children]) _ ht, ih v (by simp [children]) _ hv]
    simp [layout, String.append_assoc]
  | binary op l r =>
    obtain ⟨left, hl, hp⟩ := bind_eq_ok.1 hp
    obtain ⟨right, hr, hp⟩ := bind_eq_ok.1 hp
    obtain rfl := ok_eq_ok.1 hp
    rw [ih l (by simp [children]) _ hl, ih r (by simp [children]) _ hr]
    simp [layout, String.append_assoc]
  | property o k =>
    obtain ⟨object, ho, hp⟩ := bind_eq_ok.1 hp
    obtain ⟨key, hk, hp⟩ := bind_eq_ok.1 hp
    obtain rfl := ok_eq_ok.1 hp
    rw [ih o (by simp [children]) _ ho, ih k (by simp [children]) _ hk]
    cases hid : k.isIdentifier <;> simp [layout, hid, String.append_assoc]
  | unary op x =>
    obtain ⟨operand, hx, hp⟩ := bind_eq_ok.1 hp
    obtain rfl := ok_eq_ok.1 hp
    rw [ih x (by simp [children]) _ hx]
    cases hword : op.isWord <;> simp [layout, hword, String.append_assoc]
  | ternary c t o =>
    obtain ⟨test, hc, hp⟩ := bind_eq_ok.1 hp
    obtain ⟨whenTrue, ht, hp⟩ := bind_eq_ok.1 hp
    obtain ⟨otherwise, ho, hp⟩ := bind_eq_ok.1 hp
    obtain rfl := ok_eq_ok.1 hp
    rw [ih c (by simp [children]) _ hc, ih t (by simp [children]) _ ht, ih o (by simp [children]) _ ho]
    simp [layout, String.append_assoc]
  | call c as =>
    obtain ⟨callee, hc, hp⟩ := bind_eq_ok.1 hp
    obtain ⟨args, has, hp⟩ := bind_eq_ok.1 hp
    obtain rfl := ok_eq_ok.1 hp
    rw [ih c (by simp [children]) _ hc, printAll_laid (fun a ha => ih a (by simp [children, ha])) has]
    simp [layout, String.append_assoc]
  | new c as =>
    obtain ⟨cls, hc, hp⟩ := bind_eq_ok.1 hp
    obtain ⟨args, has, hp⟩ := bind_eq_ok.1 hp
    obtain rfl := ok_eq_ok.1 hp
    rw [ih c (by simp [children]) _ hc, printAll_laid (fun a ha => ih a (by simp [children, ha])) has]
    simp [layout, String.append_assoc]
  | function ps b =>
    obtain ⟨params, hps, hp⟩ := bind_eq_ok.1 hp
    obtain ⟨body, hb, hp⟩ := bind_eq_ok.1 hp
    -- that the body is a block is checked behind the parts, here and below
    obtain ⟨-, -, hp⟩ := bind_eq_ok.1 hp
    obtain rfl := ok_eq_ok.1 hp
    rw [ih b (by simp [children]) _ hb, printAll_laid (fun p hp => ih p (by simp [children, hp])) hps]
    simp [layout, String.append_assoc]
  | block ss =>
    obtain ⟨texts, hss, hp⟩ := bind_eq_ok.1 hp
    obtain rfl := ok_eq_ok.1 hp
    have hlaid : ∀ s ∈ ss, s.Laid unit := ih
    rw [printAll_laid hlaid hss, filter_render]
    simp [layout]
  | statement e =>
    obtain ⟨expr, he, hp⟩ := bind_eq_ok.1 hp
    obtain rfl := ok_eq_ok.1 hp
    rw [ih e (by simp [children]) _ he]
    simp [layout]
  | object fs =>
    obtain ⟨texts, hfs, hp⟩ := bind_eq_ok.1 hp
    obtain rfl := ok_eq_ok.1 hp
    rw [printFields_laid (List.forall_mem_map.1 ih) hfs]
    simp [layout]
  | declare name value =>
    obtain ⟨initial, hvalue, hp⟩ := bind_eq_ok.1 hp
    rw [printOption_laid (fun v hv => ih v (Option.mem_toList.2 hv)) hvalue] at hp
    rw [layout]
    cases hlayout : optionLayout value <;> rw [hlayout] at hp <;> obtain rfl := ok_eq_ok.1 hp <;>
      simp [String.append_assoc]
  | ret value =>
    obtain ⟨returned, hvalue, hp⟩ := bind_eq_ok.1 hp
    rw [printOption_laid (fun v hv => ih v (Option.mem_toList.2 hv)) hvalue] at hp
    rw [layout]
    cases hlayout : optionLayout value <;> rw [hlayout] at hp <;> obtain rfl := ok_eq_ok.1 hp <;>
      simp [String.append_assoc]
  | branch c b o =>
    simp only [children, List.forall_mem_cons, Option.mem_toList] at ih
    obtain ⟨test, hc, hp⟩ := bind_eq_ok.1 hp
    obtain ⟨body, hb, hp⟩ := bind_eq_ok.1 hp
    obtain ⟨otherwise, ho, hp⟩ := bind_eq_ok.1 hp
    obtain ⟨-, -, hp⟩ := bind_eq_ok.1 hp
    obtain ⟨-, -, hp⟩ := bind_eq_ok.1 hp
    obtain rfl := ok_eq_ok.1 hp
    rw [ih.1 _ hc, ih.2.1 _ hb, printOption_laid ih.2.2 ho, layout]
    cases optionLayout o <;> simp [String.append_assoc]
  | whileLoop c b =>
    obtain ⟨test, hc, hp⟩ := bind_eq_ok.1 hp
    obtain ⟨body, hb, hp⟩ := bind_eq_ok.1 hp
    obtain ⟨-, -, hp⟩ := bind_eq_ok.1 hp
    obtain rfl := ok_eq_ok.1 hp
    rw [ih c (by simp [children]) _ hc, ih b (by simp [children]) _ hb]
    simp [layout, String.append_assoc]
  | forLoop i c s b =>
    simp only [children, List.forall_mem_append, List.forall_mem_singleton, Option.mem_toList] at ih
    obtain ⟨⟨⟨ihi, ihc⟩, ihs⟩, ihb⟩ := ih
    obtain ⟨init, hi, hp⟩ := bind_eq_ok.1 hp
    obtain ⟨test, hc, hp⟩ := bind_eq_ok.1 hp
    obtain ⟨step, hs, hp⟩ := bind_eq_ok.1 hp
    obtain ⟨body, hb, hp⟩ := bind_eq_ok.1 hp
    obtain ⟨-, -, hp⟩ := bind_eq_ok.1 hp
    obtain rfl := ok_eq_ok.1 hp
    rw [printOption_laid ihi hi, printOption_laid ihc hc, printOption_laid ihs hs, ihb _ hb, layout]
    simp [render_getD, String.append_assoc]
  | tryCatch b hd f =>
    simp only [children, List.forall_mem_cons, List.forall_mem_append, Option.mem_toList] at ih
    obtain ⟨ihb, ihh, ihf⟩ := ih
    obtain ⟨body, hb, hp⟩ := bind_eq_ok.1 hp
    obtain ⟨handler, hhandler, hp⟩ := bind_eq_ok.1 hp
    obtain ⟨cleanup, hf, hp⟩ := bind_eq_ok.1 hp
    obtain ⟨-, -, hp⟩ := bind_eq_ok.1 hp
    obtain rfl := ok_eq_ok.1 hp
    rw [ihb _ hb, printHandler_laid (fun x hx => ihh _ (Option.mem_map_of_mem _ hx)) hhandler, printOption_laid ihf hf,
      layout]
    cases optionLayout f <;> simp [String.append_assoc]
  | throwValue v =>
    obtain ⟨value, hv, hp⟩ := bind_eq_ok.1 hp
    obtain rfl := ok_eq_ok.1 hp
    rw [ih v (by simp [children]) _ hv]
    simp [layout, String.append_assoc]

/-- What a node is printed as is its layout rendered, whatever lines are indented by. -/
theorem printWith_eq_render {n : Node} {text : String} (h : n.printWith unit = .ok text) :
    text = n.layout.render unit := by
  induction n using induction_children generalizing text with
  | step n ih => exact laid_of_children (fun c hc text htext => ih c hc htext) text h

/-! ## Literals -/

/-- The texts that the node itself spells as literals. -/
def texts : Node → List String
  | string s => [s]
  | object fs => fs.map (·.key)
  | _ => []

theorem flatMap_texts_all (n : Node) :
    n.all.flatMap texts = n.texts ++ n.children.flatMap fun c => c.all.flatMap texts := by
  rw [all_eq, List.flatMap_cons, List.flatMap_assoc]

/-- A layout has the literals that the node itself spells and those of its children. -/
theorem literals_layout_children (n : Node) :
    n.layout.literals.Perm (n.texts ++ n.children.flatMap (·.layout.literals)) := by
  cases n with
  | object fs =>
    have hfield (f : Field) : literals ([.literal f.key] ++ text ": " ++ f.value.layout) =
        f.key :: f.value.layout.literals := by
      rw [literals_append, literals_append]
      rfl
    rw [layout, literals_enclosed, fieldLayouts_eq_map, List.flatMap_map]
    simp only [hfield, texts, children, List.flatMap_map]
    exact (List.map_append_flatMap_perm fs _ _).symm
  | block ss =>
    rw [layout, literals_enclosed, flatMap_literals_filter, layouts_eq_map, List.flatMap_map]
    exact .refl _
  | declare name value | ret value => cases value <;> simp [layout, texts, children, optionLayout]
  | property o k => cases hid : k.isIdentifier <;> simp [layout, texts, children, hid]
  | branch c b o => cases o <;> simp [layout, texts, children, optionLayout]
  | forLoop i c s b => cases i <;> cases c <;> cases s <;> simp [layout, texts, children, optionLayout]
  | tryCatch b h f =>
    rcases h with _ | ⟨_, _⟩ <;> cases f <;> simp [layout, texts, children, optionLayout, handlerLayout]
  | _ => simp [layout, texts, children, layouts_eq_map, List.flatMap_map]

/-- The literals of a layout are those of the node, one for each string and each key. -/
theorem literals_layout (n : Node) : n.layout.literals.Perm (n.all.flatMap texts) := by
  induction n using induction_children with
  | step n ih =>
    rw [flatMap_texts_all]
    exact (literals_layout_children n).trans (.append_left _ (.flatMap_left _ ih))

end Node

end ClassScript.Script
