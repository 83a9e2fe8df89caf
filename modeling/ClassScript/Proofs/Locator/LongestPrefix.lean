import ClassScript.Locator
import ClassScript.Proofs.Text.Word
import Mathlib.Data.List.Basic
import Mathlib.Data.List.TakeWhile
/-!
# The source root of a name

Several source roots may have a file for one name. A root speaks for the names below its namespace,
segment by segment: `Lib` has nothing to say about `Library\X`. Among the roots that speak for a name
and have its file, the one with the longest namespace is taken, and the first of those with the same
(`sources_longest_namespace`). A root without the file does not stand in the way of another. With an
extension that has a slash there is no file to look for, and the search fails where a root speaks for the
name.
-/

namespace ClassScript

/-! ## Paths -/

namespace Path

/-- Where a piece may be written: at the start or behind a slash. -/
def Open (base : String) : Prop := base = "" ∨ ∃ before, base = before ++ "/"

theorem exists_join_eq (p : Path) :
    ∃ base, Open base ∧ ∀ piece : String, piece.toList.head? ≠ some '/' → p.join piece = ⟨base ++ piece⟩ := by
  by_cases hp : p.text.isEmpty || p.text.toList.getLast? == some '/'
  · refine ⟨p.text, ?_, fun piece h => ?_⟩
    · rcases Bool.or_eq_true_iff.1 hp with h | h
      · exact .inl (String.isEmpty_iff.1 h)
      · obtain ⟨before, hbefore⟩ := List.getLast?_eq_some_iff.1 (beq_iff_eq.1 h)
        exact .inr ⟨String.ofList before, by rw [← String.toList_inj]; simpa using hbefore⟩
    · rw [join, if_neg (by simpa using h), if_pos hp]
  · exact ⟨p.text ++ "/", .inr ⟨_, rfl⟩, fun piece h => by rw [join, if_neg (by simpa using h), if_neg hp]⟩

theorem exists_pieces_eq {base : String} (h : Open base) :
    ∃ front : List String,
      (∀ last, '/' ∉ last.toList → pieces ⟨base ++ last⟩ = front ++ [last]) ∧
        ∀ last, ofPieces (front ++ [last]) = ⟨base ++ last⟩ := by
  rcases h with rfl | ⟨before, rfl⟩
  · refine ⟨[], fun last hlast => ?_, fun last => ?_⟩
    · simp [pieces, segments_of_not_mem hlast]
    · simp [ofPieces]
  · refine ⟨(segments '/' before.toList).map String.ofList, fun last hlast => ?_, fun last => ?_⟩
    · have htext : (before ++ "/" ++ last).toList = before.toList ++ '/' :: last.toList := by simp
      rw [pieces, htext, segments_append_cons, segments_of_not_mem hlast, List.map_append]
      simp
    · have hne : (segments '/' before.toList).map String.ofList ≠ [] := by simp [segments_ne_nil]
      rw [ofPieces, String.intercalate_append_of_ne_nil hne (List.cons_ne_nil _ _),
        intercalate_segments_ofList rfl, String.intercalate_singleton, String.ofList_toList]

theorem splitLast?_append {atStart : Bool} (front : List String) {last : String} (h : last ≠ "")
    (hdot : last ≠ ".") : splitLast? atStart (front ++ [last]) = some (front, last) := by
  induction front generalizing atStart with
  | nil => simp [splitLast?, h, hdot]
  | cons piece front ih => simp [splitLast?, ih]

theorem stem_of_not_mem {name : String} (h : '.' ∉ name.toList) : stem name = name := by
  have hnone : name.toList.reverse.dropWhile (· != '.') = [] := by
    rw [List.dropWhile_eq_nil_iff]
    intro c hc
    exact bne_iff_ne.2 fun heq => h (heq ▸ List.mem_reverse.1 hc)
  rw [stem, hnone]

/-- What stands behind the name of a file: its extension, with a dot if there is one. -/
def ending (extension : String) : String := if extension.isEmpty then "" else "." ++ extension

theorem withExtension_word {base w : String} (hbase : Open base) (hw : isWord w = true) (extension : String) :
    withExtension ⟨base ++ w⟩ extension = ⟨base ++ w ++ ending extension⟩ := by
  obtain ⟨front, hpieces, hof⟩ := exists_pieces_eq hbase
  have hslash : '/' ∉ w.toList := not_mem_of_isWord hw (by decide)
  have hdot : '.' ∉ w.toList := not_mem_of_isWord hw (by decide)
  have hone : w ≠ "." := by rintro rfl; simp at hdot
  have htwo : w ≠ ".." := by rintro rfl; simp at hdot
  rw [withExtension, hpieces w hslash, splitLast?_append front (ne_empty_of_isWord hw) hone]
  simp only [hone, htwo, or_self, if_false, stem_of_not_mem hdot, hof, String.append_assoc]
  rfl

theorem join_join {w v : String} (p : Path) (hw : isWord w = true) (hv : v.toList.head? ≠ some '/') :
    (p.join w).join v = p.join (w ++ "/" ++ v) := by
  obtain ⟨base, -, hjoin⟩ := exists_join_eq p
  have hlast := getLast?_ne_of_isWord hw (by decide : isWordChar '/' = false) base
  rw [hjoin w (by simpa using head?_ne_of_isWord hw (by decide : isWordChar '/' = false) ""),
    String.append_assoc, hjoin _ (head?_ne_of_isWord hw (by decide) _), join, if_neg (by simpa using hv),
    if_neg (by simpa [ne_empty_of_isWord hw] using hlast)]
  simp only [String.append_assoc]

/-- Pieces joined one after the other are joined with slashes between them. -/
theorem foldl_join (p : Path) {ws : List String} (hne : ws ≠ []) (hws : ∀ w ∈ ws, isWord w = true) :
    ws.foldl join p = p.join ("/".intercalate ws) := by
  induction ws generalizing p with
  | nil => exact absurd rfl hne
  | cons w rest ih =>
    obtain ⟨hw, hrest⟩ := List.forall_mem_cons.1 hws
    cases rest with
    | nil => rw [String.intercalate_singleton]; rfl
    | cons next rest =>
      have hnext : ("/".intercalate (next :: rest)).toList.head? ≠ some '/' := by
        simpa using intercalate_head?_ne "/" (List.cons_ne_nil _ _) hrest (by decide : isWordChar '/' = false) ""
      rw [List.foldl_cons, ih _ (List.cons_ne_nil _ _) hrest, String.intercalate_cons_cons,
        join_join p hw hnext]

/-- The file that words lead to below a path. -/
theorem withExtension_foldl_join (p : Path) {ws : List String} (hne : ws ≠ [])
    (hws : ∀ w ∈ ws, isWord w = true) (extension : String) :
    (ws.foldl join p).withExtension extension = p.join ("/".intercalate ws ++ ending extension) := by
  obtain ⟨base, hbase, hjoin⟩ := exists_join_eq p
  have hslash := intercalate_head?_ne "/" hne hws (by decide : isWordChar '/' = false)
  have htext : p.join ("/".intercalate ws) = ⟨base ++ "/".intercalate ws⟩ :=
    hjoin _ (by simpa using hslash "")
  rw [foldl_join p hne hws, htext, hjoin _ (hslash _)]
  obtain ⟨front, last, rfl⟩ : ∃ front last, ws = front ++ [last] :=
    ⟨_, _, (List.dropLast_concat_getLast hne).symm⟩
  have hlast : isWord last = true := hws last (by simp)
  by_cases hfront : front = []
  · subst hfront
    rw [List.nil_append, String.intercalate_singleton, withExtension_word hbase hlast, String.append_assoc]
  · have hopen : Open (base ++ ("/".intercalate front ++ "/")) := .inr ⟨base ++ "/".intercalate front, by
      rw [String.append_assoc]⟩
    rw [String.intercalate_append_of_ne_nil hfront (List.cons_ne_nil _ _), String.intercalate_singleton,
      ← String.append_assoc, withExtension_word hopen hlast]
    simp only [String.append_assoc]

end Path

namespace Locator

/-! ## Names below a namespace -/

/-- The segments that a namespace is written with. Separators around it count for nothing. -/
def Spells (ns : String) (above : List String) : Prop :=
  ∃ l r, ns.toList = List.replicate l '\\' ++ ("\\".intercalate above).toList ++ List.replicate r '\\'

theorem exists_replicate_append_dropWhile (c : Char) (cs : List Char) :
    ∃ n, cs = List.replicate n c ++ cs.dropWhile (· == c) := by
  refine ⟨(cs.takeWhile (· == c)).length, ?_⟩
  have hfront : ∀ d ∈ cs.takeWhile (· == c), d = c := fun d hd => by simpa using List.mem_takeWhile_imp hd
  rw [← List.eq_replicate_of_mem hfront, List.takeWhile_append_dropWhile]

theorem dropWhile_eq_self_of_head? {c : Char} {cs : List Char} (h : cs.head? ≠ some c) :
    cs.dropWhile (· == c) = cs := by
  cases cs with
  | nil => rfl
  | cons d ds => exact List.dropWhile_cons_of_neg (by simpa using h)

theorem trimmedNamespace_eq_iff {ns : String} {above : List String} (hw : ∀ w ∈ above, isWord w = true) :
    trimmedNamespace ns = "\\".intercalate above ↔ Spells ns above := by
  constructor
  · intro h
    obtain ⟨l, hl⟩ := exists_replicate_append_dropWhile '\\' ns.toList
    obtain ⟨r, hr⟩ := exists_replicate_append_dropWhile '\\' (ns.toList.dropWhile (· == '\\')).reverse
    have hback := congrArg List.reverse hr
    rw [List.reverse_reverse, List.reverse_append, List.reverse_replicate] at hback
    exact ⟨l, r, by rw [← h, trimmedNamespace, String.toList_ofList, List.append_assoc, ← hback, ← hl]⟩
  · rintro ⟨l, r, h⟩
    have hseps : ∀ n, ∀ d ∈ List.replicate n '\\', (d == '\\') = true :=
      fun n d hd => beq_iff_eq.2 (List.eq_of_mem_replicate hd)
    rw [trimmedNamespace, h, List.append_assoc, List.dropWhile_append_of_pos (hseps l)]
    by_cases habove : above = []
    · simp [habove]
    · have hhead := intercalate_head?_ne "\\" habove hw (by decide : isWordChar '\\' = false)
        (String.ofList (List.replicate r '\\'))
      have hlast := intercalate_getLast?_ne "\\" habove hw (by decide : isWordChar '\\' = false)
      rw [String.toList_append, String.toList_ofList] at hhead
      rw [← List.head?_reverse] at hlast
      rw [dropWhile_eq_self_of_head? hhead, List.reverse_append, List.reverse_replicate,
        List.dropWhile_append_of_pos (hseps r), dropWhile_eq_self_of_head? hlast, List.reverse_reverse,
        String.ofList_toList]

variable {segs : List String}

theorem segments_words (hne : segs ≠ []) (hw : ∀ w ∈ segs, isWord w = true) :
    (segments '\\' ("\\".intercalate segs).toList).map String.ofList = segs := by
  have hsep : ∀ piece ∈ segs.map String.toList, '\\' ∉ piece :=
    List.forall_mem_map.2 fun w h => not_mem_of_isWord (hw w h) (by decide)
  rw [String.toList_intercalate]
  simpa [Function.comp_def] using
    congrArg (List.map String.ofList) (segments_intercalate (by simpa using hne) hsep)

/-- What a name of words is below a namespace: whole segments of it, and at least one. -/
theorem below?_eq_some_iff (hne : segs ≠ []) (hw : ∀ w ∈ segs, isWord w = true) {ns : String}
    {relative : List Char} :
    below? ns ("\\".intercalate segs) = some relative ↔
      ∃ above rest, segs = above ++ rest ∧ rest ≠ [] ∧ ns = "\\".intercalate above ∧
        relative = ("\\".intercalate rest).toList := by
  by_cases hempty : ns.isEmpty
  · obtain rfl := String.isEmpty_iff.1 hempty
    rw [below?, if_pos hempty]
    constructor
    · rintro ⟨⟩
      exact ⟨[], segs, rfl, hne, String.intercalate_nil.symm, rfl⟩
    · rintro ⟨above, rest, rfl, -, hns, rfl⟩
      have habove : above = [] := by
        by_contra habove
        exact intercalate_ne_empty _ habove (fun w h => hw w (List.mem_append_left _ h)) hns.symm
      rw [habove, List.nil_append]
  · rw [below?, if_neg hempty, List.isPrefixOf?_eq_some_iff_append_eq, String.toList_append, List.append_assoc]
    constructor
    · intro h
      have hpieces : segs = (segments '\\' ns.toList ++ segments '\\' relative).map String.ofList := by
        rw [← segments_append_cons, ← segments_words hne hw, ← h]
        rfl
      refine ⟨_, _, hpieces.trans List.map_append, by simp [segments_ne_nil], ?_, ?_⟩
      · rw [intercalate_segments_ofList rfl, String.ofList_toList]
      · rw [intercalate_segments_ofList rfl, String.toList_ofList]
    · rintro ⟨above, rest, rfl, hrest, rfl, rfl⟩
      have habove : above ≠ [] := by
        rintro rfl
        exact hempty rfl
      rw [String.intercalate_append_of_ne_nil habove hrest, String.toList_append, String.toList_append,
        List.append_assoc]

/-! ## The places to look -/

/-- Where a root looks for a name of words. -/
theorem candidate?_eq_some_iff (hne : segs ≠ []) (hw : ∀ w ∈ segs, isWord w = true) {extension ns : String}
    {dir p : Path} :
    candidate? extension ("\\".intercalate segs) (trimmedNamespace ns, dir) = some p ↔
      ∃ above rest, segs = above ++ rest ∧ rest ≠ [] ∧ Spells ns above ∧
        p = dir.join ("/".intercalate rest ++ Path.ending extension) := by
  rw [candidate?, Option.map_eq_some_iff]
  constructor
  · rintro ⟨relative, hbelow, rfl⟩
    obtain ⟨above, rest, rfl, hrest, hns, rfl⟩ := (below?_eq_some_iff hne hw).1 hbelow
    obtain ⟨habove, hwords⟩ := List.forall_mem_append.1 hw
    refine ⟨above, rest, rfl, hrest, (trimmedNamespace_eq_iff habove).1 hns, ?_⟩
    rw [segments_words hrest hwords, Path.withExtension_foldl_join dir hrest hwords]
  · rintro ⟨above, rest, rfl, hrest, hns, rfl⟩
    obtain ⟨habove, hwords⟩ := List.forall_mem_append.1 hw
    refine ⟨_, (below?_eq_some_iff hne hw).2
      ⟨above, rest, rfl, hrest, (trimmedNamespace_eq_iff habove).2 hns, rfl⟩, ?_⟩
    rw [segments_words hrest hwords, Path.withExtension_foldl_join dir hrest hwords]

/-- The roots in the order they are tried, with their places in the list. -/
def placed (roots : List (String × Path)) : List ((String × Path) × Nat) :=
  ((roots.map fun (ns, dir) => (trimmedNamespace ns, dir)).zipIdx).mergeSort
    (List.zipIdxLE fun a b => b.1.utf8ByteSize ≤ a.1.utf8ByteSize)

theorem sortedRoots_eq (roots : List (String × Path)) : sortedRoots roots = (placed roots).map (·.1) :=
  List.mergeSort_zipIdx.symm

theorem mem_placed_iff {roots : List (String × Path)} {t : String} {dir : Path} {i : Nat} :
    ((t, dir), i) ∈ placed roots ↔ ∃ ns, roots[i]? = some (ns, dir) ∧ t = trimmedNamespace ns := by
  rw [placed, List.mem_mergeSort, List.mem_zipIdx_iff_getElem?]
  simp only [List.getElem?_map, Option.map_eq_some_iff, Prod.exists, Prod.mk.injEq]
  constructor
  · rintro ⟨ns, d, h, rfl, rfl⟩
    exact ⟨ns, h, rfl⟩
  · rintro ⟨ns, h, rfl⟩
    exact ⟨ns, dir, h, rfl, rfl⟩

/-- Longer namespaces are tried first, and equally long ones in the order of the list. -/
theorem pairwise_placed (roots : List (String × Path)) :
    (placed roots).Pairwise fun a b =>
      b.1.1.utf8ByteSize < a.1.1.utf8ByteSize ∨ b.1.1.utf8ByteSize = a.1.1.utf8ByteSize ∧ a.2 ≤ b.2 := by
  refine (List.pairwise_mergeSort (List.zipIdxLE_trans ?_) (List.zipIdxLE_total ?_) _).imp ?_
  · intro a b c hab hbc
    simp only [decide_eq_true_eq] at hab hbc ⊢
    exact hbc.trans hab
  · intro a b
    simp only [Bool.or_eq_true, decide_eq_true_eq]
    exact le_total _ _
  · intro a b h
    simp only [List.zipIdxLE, decide_eq_true_eq] at h
    split at h
    · split at h
      · exact .inr ⟨by omega, of_decide_eq_true h⟩
      · exact .inl (by omega)
    · cases h

/-- The root at a place has the file of a name, for which it speaks with the first of its segments as
the namespace. -/
def Holds (files : FileSystem) (roots : List (String × Path)) (extension : String) (segs : List String)
    (i : Nat) (above : List String) (p : Path) : Prop :=
  ∃ ns dir rest, roots[i]? = some (ns, dir) ∧ Spells ns above ∧ segs = above ++ rest ∧ rest ≠ [] ∧
    p = dir.join ("/".intercalate rest ++ Path.ending (trimmedExtension extension)) ∧ files.isFile p = true

variable {files : FileSystem} {roots : List (String × Path)} {extension : String} {p : Path}

/-- A root that has the file is a place to look, under the name of its namespace. -/
theorem Holds.placed (hne : segs ≠ []) (hw : ∀ w ∈ segs, isWord w = true) {i : Nat} {above : List String}
    (h : Holds files roots extension segs i above p) :
    ∃ dir, (("\\".intercalate above, dir), i) ∈ placed roots ∧
      candidate? (trimmedExtension extension) ("\\".intercalate segs) ("\\".intercalate above, dir) = some p := by
  obtain ⟨ns, dir, rest, hi, hns, hsegs, hrest, hp, -⟩ := h
  have htrim : trimmedNamespace ns = "\\".intercalate above :=
    (trimmedNamespace_eq_iff fun w h => hw w (hsegs ▸ List.mem_append_left _ h)).2 hns
  refine ⟨dir, mem_placed_iff.2 ⟨ns, hi, htrim.symm⟩, ?_⟩
  rw [← htrim]
  exact (candidate?_eq_some_iff hne hw).2 ⟨above, rest, hsegs, hrest, hns, hp⟩

theorem exists_holds (hne : segs ≠ []) (hw : ∀ w ∈ segs, isWord w = true) {t : String} {dir : Path} {i : Nat}
    (hi : ((t, dir), i) ∈ Locator.placed roots)
    (hp : candidate? (trimmedExtension extension) ("\\".intercalate segs) (t, dir) = some p)
    (hfile : files.isFile p = true) :
    ∃ above, Holds files roots extension segs i above p ∧ t = "\\".intercalate above := by
  obtain ⟨ns, hroot, rfl⟩ := mem_placed_iff.1 hi
  obtain ⟨above, rest, hsegs, hrest, hns, hpath⟩ := (candidate?_eq_some_iff hne hw).1 hp
  exact ⟨above, ⟨ns, dir, rest, hroot, hns, hsegs, hrest, hpath, hfile⟩,
    (trimmedNamespace_eq_iff fun w h => hw w (hsegs ▸ List.mem_append_left _ h)).2 hns⟩

/-- Of two namespaces around a name, the one with more segments is the longer text. -/
theorem utf8ByteSize_lt {above above' : List String} (hw : ∀ w ∈ segs, isWord w = true) (h : above <+: segs)
    (h' : above' <+: segs) (hlt : above.length < above'.length) :
    ("\\".intercalate above).utf8ByteSize < ("\\".intercalate above').utf8ByteSize := by
  obtain ⟨more, rfl⟩ := List.prefix_of_prefix_length_le h h' hlt.le
  have hmore : more ≠ [] := by
    rintro rfl
    simp at hlt
  have hwords : ∀ w ∈ more, isWord w = true :=
    fun w h => hw w (h'.subset (List.mem_append_right _ h))
  by_cases habove : above = []
  · have hempty : ("\\".intercalate more).utf8ByteSize ≠ 0 :=
      fun h => intercalate_ne_empty _ hmore hwords (String.utf8ByteSize_eq_zero_iff.1 h)
    rw [habove, List.nil_append, String.intercalate_nil]
    exact Nat.pos_of_ne_zero hempty
  · have hsep : "\\".utf8ByteSize = 1 := rfl
    rw [String.intercalate_append_of_ne_nil habove hmore, String.utf8ByteSize_append,
      String.utf8ByteSize_append, hsep]
    omega

/-! ## The place that is taken -/

/-- Whether the place of a root has the file of a name. -/
def isHit (files : FileSystem) (extension name : String) (x : (String × Path) × Nat) : Bool :=
  (candidate? (trimmedExtension extension) name x.1).any files.isFile

theorem find?_candidates (name : String) :
    (candidates roots extension name).find? files.isFile =
      ((placed roots).find? (isHit files extension name)).bind
        fun x => candidate? (trimmedExtension extension) name x.1 := by
  rw [candidates, sortedRoots_eq, List.find?_filterMap, List.find?_map, Option.bind_map]
  rfl

/-- What is found first comes before all else that could be found. -/
theorem find?_placed {f : (String × Path) × Nat → Bool} {x y : (String × Path) × Nat}
    (h : (placed roots).find? f = some x) (hy : y ∈ placed roots) (hfy : f y = true) :
    y.1.1.utf8ByteSize < x.1.1.utf8ByteSize ∨ y.1.1.utf8ByteSize = x.1.1.utf8ByteSize ∧ x.2 ≤ y.2 := by
  obtain ⟨-, before, after, hsplit, hbefore⟩ := List.find?_eq_some_iff_append.1 h
  have hpairs := (List.pairwise_append.1 (hsplit ▸ pairwise_placed roots)).2.1
  rw [hsplit] at hy
  rcases List.mem_append.1 hy with hy | hy
  · simpa [hfy] using hbefore y hy
  · rcases List.mem_cons.1 hy with rfl | hy
    · exact .inr ⟨rfl, le_rfl⟩
    · exact List.rel_of_pairwise_cons hpairs hy

theorem Holds.above_isPrefix {i : Nat} {above : List String} (h : Holds files roots extension segs i above p) :
    above <+: segs := by
  obtain ⟨ns, dir, rest, -, -, hsegs, -⟩ := h
  exact ⟨rest, hsegs.symm⟩

theorem Holds.isFile {i : Nat} {above : List String} (h : Holds files roots extension segs i above p) :
    files.isFile p = true := by
  obtain ⟨ns, dir, rest, -, -, -, -, -, hfile⟩ := h
  exact hfile

/-- The root at a place has the file of a name and no other that has it is better: none has a longer
namespace, and none with one as long comes earlier. -/
def Preferred (files : FileSystem) (roots : List (String × Path)) (extension : String) (segs : List String)
    (i : Nat) (above : List String) (p : Path) : Prop :=
  Holds files roots extension segs i above p ∧
    ∀ j above' p', Holds files roots extension segs j above' p' →
      above'.length < above.length ∨ above'.length = above.length ∧ i ≤ j

theorem exists_preferred_of_find? (hne : segs ≠ []) (hw : ∀ w ∈ segs, isWord w = true)
    (h : (candidates roots extension ("\\".intercalate segs)).find? files.isFile = some p) :
    ∃ i above, Preferred files roots extension segs i above p := by
  rw [find?_candidates, Option.bind_eq_some_iff] at h
  obtain ⟨⟨⟨t, dir⟩, i⟩, hfind, hp⟩ := h
  have hhit : files.isFile p = true := by simpa [isHit, hp] using List.find?_some hfind
  obtain ⟨above, hholds, rfl⟩ := exists_holds hne hw (List.mem_of_find?_eq_some hfind) hp hhit
  refine ⟨i, above, hholds, fun j above' p' hholds' => ?_⟩
  obtain ⟨dir', hj, hp'⟩ := hholds'.placed hne hw
  have hbest := find?_placed hfind hj (by simp [isHit, hp', hholds'.isFile])
  rcases lt_trichotomy above'.length above.length with hlt | heq | hgt
  · exact .inl hlt
  · have hsame : above' = above := by
      rw [List.prefix_iff_eq_take.1 hholds'.above_isPrefix, List.prefix_iff_eq_take.1 hholds.above_isPrefix, heq]
    rw [hsame] at hbest
    exact .inr ⟨heq, by simpa using hbest⟩
  · have hlonger := utf8ByteSize_lt hw hholds.above_isPrefix hholds'.above_isPrefix hgt
    simp only at hbest
    omega

theorem not_holds_of_find? (hne : segs ≠ []) (hw : ∀ w ∈ segs, isWord w = true)
    (h : (candidates roots extension ("\\".intercalate segs)).find? files.isFile = none) (i : Nat)
    (above : List String) (p : Path) : ¬Holds files roots extension segs i above p := by
  intro hholds
  obtain ⟨dir, hi, hp⟩ := hholds.placed hne hw
  have hmem : p ∈ candidates roots extension ("\\".intercalate segs) := by
    rw [candidates, sortedRoots_eq, List.mem_filterMap]
    exact ⟨_, List.mem_map_of_mem hi, hp⟩
  exact List.find?_eq_none.1 h p hmem hholds.isFile

/-- Some root speaks for a name of words. -/
def Spoken (roots : List (String × Path)) (segs : List String) : Prop :=
  ∃ ns dir above rest, (ns, dir) ∈ roots ∧ Spells ns above ∧ segs = above ++ rest ∧ rest ≠ []

theorem mem_sortedRoots_iff {root : String × Path} :
    root ∈ sortedRoots roots ↔ ∃ ns dir, (ns, dir) ∈ roots ∧ (trimmedNamespace ns, dir) = root := by
  simp [sortedRoots, List.mem_mergeSort]

theorem candidates_ne_nil_iff (hne : segs ≠ []) (hw : ∀ w ∈ segs, isWord w = true) :
    candidates roots extension ("\\".intercalate segs) ≠ [] ↔ Spoken roots segs := by
  rw [candidates]
  constructor
  · intro hplaces
    obtain ⟨p, hp⟩ := List.exists_mem_of_ne_nil _ hplaces
    obtain ⟨root, hsorted, hp⟩ := List.mem_filterMap.1 hp
    obtain ⟨ns, dir, hroot, rfl⟩ := mem_sortedRoots_iff.1 hsorted
    obtain ⟨above, rest, hsegs, hrest, hns, -⟩ := (candidate?_eq_some_iff hne hw).1 hp
    exact ⟨ns, dir, above, rest, hroot, hns, hsegs, hrest⟩
  · rintro ⟨ns, dir, above, rest, hroot, hns, hsegs, hrest⟩
    have hsorted : (trimmedNamespace ns, dir) ∈ sortedRoots roots := mem_sortedRoots_iff.2 ⟨ns, dir, hroot, rfl⟩
    obtain ⟨p, hp⟩ : ∃ p, candidate? (trimmedExtension extension) ("\\".intercalate segs)
        (trimmedNamespace ns, dir) = some p :=
      ⟨_, (candidate?_eq_some_iff hne hw).2 ⟨above, rest, hsegs, hrest, hns, rfl⟩⟩
    exact List.ne_nil_of_mem (List.mem_filterMap.2 ⟨_, hsorted, hp⟩)

theorem sources_eq_of_not_mem (h : '/' ∉ extension.toList) (name : String) (next : Locator) :
    (sources files roots extension next).file? name =
      ((candidates roots extension name).find? files.isFile).elim (next.file? name) (.ok ∘ some) := by
  cases hfind : (candidates roots extension name).find? files.isFile <;> simp [sources, h, hfind]

theorem sources_eq_of_mem (h : '/' ∈ extension.toList) (name : String) (next : Locator) :
    (sources files roots extension next).file? name =
      if candidates roots extension name ≠ [] then
        .error (Fault.separatedExtension (trimmedExtension extension)).diagnostic
      else next.file? name := by
  by_cases hplaces : candidates roots extension name = []
  · simp [sources, hplaces]
  · simp [sources, h, hplaces]

/-- Let an extension have no slash. The sources answer for a name of words with the file of the preferred
root, if any root has one, and only if none has they ask the next locator. An empty extension adds no dot to a
file's name. An extension with a slash belongs to no file: the sources fail for each name that a root speaks
for, and ask the next locator for the others. -/
theorem sources_longest_namespace (files : FileSystem) (roots : List (String × Path)) (extension : String)
    {segs : List String} (hne : segs ≠ []) (hw : ∀ w ∈ segs, isWord w = true) :
    let name := "\\".intercalate segs
    ('/' ∉ extension.toList →
      ((∃ i above p, Preferred files roots extension segs i above p ∧
          ∀ next, (sources files roots extension next).file? name = .ok (some p)) ∨
        ∀ i above p, ¬Holds files roots extension segs i above p) ∧
      ((∀ next, (sources files roots extension next).file? name = next.file? name) ↔
        ∀ i above p, ¬Holds files roots extension segs i above p)) ∧
    ('/' ∈ extension.toList → ∀ next,
      (Spoken roots segs → (sources files roots extension next).file? name
        = .error (Fault.separatedExtension (trimmedExtension extension)).diagnostic) ∧
      (¬Spoken roots segs → (sources files roots extension next).file? name = next.file? name)) := by
  intro name
  refine ⟨fun hslash => ?_, fun hslash next => ⟨fun hspoken => ?_, fun hspoken => ?_⟩⟩
  · cases hfind : (candidates roots extension name).find? files.isFile with
    | some p =>
      have hanswer : ∀ next, (sources files roots extension next).file? name = .ok (some p) := by
        intro next
        rw [sources_eq_of_not_mem hslash, hfind]
        rfl
      obtain ⟨i, above, hpreferred⟩ := exists_preferred_of_find? hne hw hfind
      refine ⟨.inl ⟨i, above, p, hpreferred, hanswer⟩, fun hasks => ?_, fun hnone => ?_⟩
      · -- a locator that knows no name would have been heard
        have hnowhere := (hanswer nowhere).symm.trans (hasks nowhere)
        cases hnowhere
      · exact absurd hpreferred.1 (hnone i above p)
    | none =>
      have hnone := not_holds_of_find? hne hw hfind
      refine ⟨.inr hnone, fun _ => hnone, fun _ next => ?_⟩
      rw [sources_eq_of_not_mem hslash, hfind]
      rfl
  · rw [sources_eq_of_mem hslash, if_pos ((candidates_ne_nil_iff hne hw).2 hspoken)]
  · rw [sources_eq_of_mem hslash, if_neg (mt (candidates_ne_nil_iff hne hw).1 hspoken)]

/-- Two roots have the namespace of a class and a third the one around it. -/
theorem sources_longest_namespace_user :
    let roots : List (String × Path) := [("App", ⟨"src"⟩), ("\\App\\Model\\", ⟨"models"⟩), ("App\\Model", ⟨"other/"⟩)]
    let files : FileSystem := {
      entries := [(["src", "Model", "User.php"], .text ""), (["other", "User.php"], .text "")] }
    let segs := ["App", "Model", "User"]
    segs ≠ [] ∧ (∀ w ∈ segs, isWord w = true) ∧
      Holds files roots ".php" segs 0 ["App"] ⟨"src/Model/User.php"⟩ ∧
      ∃ i above p, Preferred files roots ".php" segs i above p ∧
        ∀ next, (sources files roots ".php" next).file? "App\\Model\\User" = .ok (some p) := by
  intro roots files segs
  have hne : segs ≠ [] := by decide
  have hw : ∀ w ∈ segs, isWord w = true := by decide
  have hsrc : Holds files roots ".php" segs 0 ["App"] ⟨"src/Model/User.php"⟩ :=
    ⟨"App", ⟨"src"⟩, ["Model", "User"], rfl, ⟨0, 0, rfl⟩, rfl, by decide, by decide, by decide⟩
  have hslash : '/' ∉ (".php" : String).toList := by decide
  rcases ((sources_longest_namespace files roots ".php" hne hw).1 hslash).1 with hfound | hnone
  · exact ⟨hne, hw, hsrc, hfound⟩
  · exact absurd hsrc (hnone _ _ _)

end Locator

end ClassScript
