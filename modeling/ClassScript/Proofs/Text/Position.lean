import ClassScript.Text.Position
/-!
# Positions and bytes

What a position tells is said of the bytes before it: how many newlines they have, and where the last line among them
starts (`Position.Behind`). Going through a text and searching its line index both give that position
(`Behind.after`, `LineIndex.locate?_behind`). The search never leaves the index, since the starts of lines are sorted
and the first of them is zero. As long as lines and columns fit into 32 bits, positions increase with their offsets
(`Behind.before`).
-/

namespace ClassScript

/-! ## Searching in sorted arrays -/

/-- What is to be found: the number, or the place that parts the smaller numbers from the larger ones. -/
def Lookup.Right (xs : List Nat) (x : Nat) : Lookup → Prop
  | .found i => xs[i]? = some x
  | .missing i => i ≤ xs.length ∧ (∀ y ∈ xs.take i, y < x) ∧ ∀ y ∈ xs.drop i, x < y

theorem exists_split {xs : List Nat} {i : Nat} (h : i < xs.length) :
    ∃ front x back, xs = front ++ x :: back ∧ front.length = i :=
  ⟨xs.take i, xs[i], xs.drop (i + 1), by simp, by simp; omega⟩

theorem binarySearch_right {xs : List Nat} (hsorted : xs.Pairwise (· < ·)) {x lo hi : Nat} (hlo : lo ≤ hi)
    (hhi : hi ≤ xs.length) (hbelow : ∀ y ∈ xs.take lo, y < x) (habove : ∀ y ∈ xs.drop hi, x < y) :
    (binarySearch xs.toArray x lo hi).Right xs x := by
  fun_induction binarySearch xs.toArray x lo hi with
  | case1 lo hi hlt mid hmid =>
    have hlen : mid < xs.length := by omega
    simpa [Lookup.Right, hlen] using hmid
  | case2 lo hi hlt mid hne hless ih =>
    obtain ⟨front, m, back, rfl, hfront⟩ := exists_split (show mid < xs.length by omega)
    rw [List.pairwise_append] at hsorted
    have hm : m < x := by simpa [← hfront] using hless
    refine ih (by omega) hhi ?_ habove
    rw [← hfront, List.take_length_add_append]
    simp only [List.take_succ_cons, List.take_zero, List.mem_append, List.mem_singleton]
    rintro y (hy | rfl)
    · exact Nat.lt_trans (hsorted.2.2 y hy m (.head _)) hm
    · exact hm
  | case3 lo hi hlt mid hne hless ih =>
    obtain ⟨front, m, back, rfl, hfront⟩ := exists_split (show mid < xs.length by omega)
    rw [List.pairwise_append, List.pairwise_cons] at hsorted
    have hm : x < m := by
      simp [← hfront] at hless hne
      omega
    refine ih (by omega) (by omega) hbelow ?_
    rw [← hfront, List.drop_left]
    rintro y (_ | ⟨_, hy⟩)
    · exact hm
    · exact Nat.lt_trans hm (hsorted.2.1.1 y hy)
  | case4 lo hi hlt =>
    obtain rfl : lo = hi := by omega
    exact ⟨hhi, hbelow, habove⟩

/-- If the first number is no larger, there is a last one that is no larger, and its place is found. -/
theorem Lookup.Right.exists_floor {xs : List Nat} (hsorted : xs.Pairwise (· < ·)) {x y : Nat} {l : Lookup}
    (h : l.Right xs x) (hfirst : xs.head? = some y) (hy : y ≤ x) :
    ∃ front y back, xs = front ++ y :: back ∧ y ≤ x ∧ (∀ z ∈ back, x < z) ∧ l.floor? = some front.length := by
  cases l with
  | found i =>
    obtain ⟨hi, rfl⟩ := List.getElem?_eq_some_iff.1 h
    obtain ⟨front, y, back, rfl, rfl⟩ := exists_split hi
    rw [List.pairwise_append, List.pairwise_cons] at hsorted
    exact ⟨front, y, back, rfl, by simp, by simpa using hsorted.2.1.1, rfl⟩
  | missing i =>
    obtain ⟨hi, hbelow, habove⟩ := h
    cases i with
    | zero => exact absurd (habove y (List.mem_of_head? hfirst)) (by omega)
    | succ i =>
      obtain ⟨front, y, back, rfl, rfl⟩ := exists_split (Nat.lt_of_succ_le hi)
      rw [List.drop_length_add_append] at habove
      have hy : y < x := hbelow y (by simp [List.take_length_add_append])
      exact ⟨front, y, back, rfl, Nat.le_of_lt hy, habove, rfl⟩

/-! ## Bytes -/

/-- The byte of a newline. -/
def newline : UInt8 := 10

/-- The bytes of a run of characters. -/
def bytesOf (cs : List Char) : List UInt8 := cs.flatMap String.utf8EncodeChar

/-- The bytes of a text before an offset. -/
def bytesBefore (text : String) (offset : Nat) : List UInt8 := text.toUTF8.data.toList.take offset

@[simp] theorem bytesOf_nil : bytesOf [] = [] := rfl

theorem bytesOf_newline (cs : List Char) : bytesOf ('\n' :: cs) = newline :: bytesOf cs := rfl

theorem bytesOf_cons (c : Char) (cs : List Char) : bytesOf (c :: cs) = String.utf8EncodeChar c ++ bytesOf cs := rfl

theorem bytesOf_append (cs ds : List Char) : bytesOf (cs ++ ds) = bytesOf cs ++ bytesOf ds := List.flatMap_append

theorem length_bytesOf_pos {cs : List Char} (h : cs ≠ []) : 0 < (bytesOf cs).length := by
  obtain ⟨c, cs, rfl⟩ := List.exists_cons_of_ne_nil h
  rw [bytesOf_cons, List.length_append, String.length_utf8EncodeChar]
  exact Nat.add_pos_left c.utf8Size_pos _

theorem toUTF8_eq (text : String) : text.toUTF8.data.toList = bytesOf text.toList := by
  rw [String.toUTF8_eq_toByteArray, ← String.utf8Encode_toList, List.utf8Encode, List.data_toByteArray, bytesOf]

theorem length_bytesOf_toList (text : String) : (bytesOf text.toList).length = text.utf8ByteSize := by
  rw [← toUTF8_eq, Array.length_toList]
  rfl

/-- No character but a newline has the byte of one. -/
theorem newline_not_mem_utf8EncodeChar {c : Char} (h : c ≠ '\n') : newline ∉ String.utf8EncodeChar c := by
  have hval : c.val.toNat ≠ 10 := fun heq => h (Char.ext (UInt32.toNat_inj.1 heq))
  have hbyte {n : Nat} (hn : n < 256) (hne : n ≠ 10) : newline ≠ UInt8.ofNat n := by
    intro heq
    have hnat := congrArg UInt8.toNat heq
    simp [newline, Nat.mod_eq_of_lt hn] at hnat
    omega
  -- of several bytes, the first is at least 192 and the others at least 128
  unfold String.utf8EncodeChar
  dsimp only
  split
  · simpa using hbyte (by omega) hval
  · split
    · simp only [List.mem_cons, List.not_mem_nil, or_false, not_or]
      exact ⟨hbyte (by omega) (by omega), hbyte (by omega) (by omega)⟩
    · split
      · simp only [List.mem_cons, List.not_mem_nil, or_false, not_or]
        exact ⟨hbyte (by omega) (by omega), hbyte (by omega) (by omega), hbyte (by omega) (by omega)⟩
      · simp only [List.mem_cons, List.not_mem_nil, or_false, not_or]
        exact ⟨hbyte (by omega) (by omega), hbyte (by omega) (by omega), hbyte (by omega) (by omega),
          hbyte (by omega) (by omega)⟩

/-- The last line among the bytes starts there: with the first byte or behind a newline, and no newline follows. -/
structure StartsLastLine (bytes : List UInt8) (start : Nat) : Prop where
  first_or_behind : start = 0 ∨ ∃ i, bytes[i]? = some newline ∧ start = i + 1
  last : ∀ i, start ≤ i → bytes[i]? ≠ some newline

namespace StartsLastLine

variable {bytes more : List UInt8} {start start' : Nat}

theorem le_length (h : StartsLastLine bytes start) : start ≤ bytes.length := by
  rcases h.first_or_behind with rfl | ⟨i, hi, rfl⟩
  · exact Nat.zero_le _
  · exact (List.getElem?_eq_some_iff.1 hi).1

theorem le_of (h : StartsLastLine bytes start) (h' : StartsLastLine bytes start') : start ≤ start' := by
  rcases h.first_or_behind with rfl | ⟨i, hi, rfl⟩
  · exact Nat.zero_le _
  · exact Nat.lt_of_not_le fun hle => h'.last i hle hi

theorem unique (h : StartsLastLine bytes start) (h' : StartsLastLine bytes start') : start = start' :=
  Nat.le_antisymm (h.le_of h') (h'.le_of h)

theorem nil : StartsLastLine [] 0 := ⟨.inl rfl, by simp⟩

theorem append_newline (bytes : List UInt8) : StartsLastLine (bytes ++ [newline]) (bytes.length + 1) := by
  refine ⟨.inr ⟨bytes.length, by simp, rfl⟩, fun i hi => ?_⟩
  rw [List.getElem?_eq_none (by simpa using hi)]
  exact nofun

theorem append (h : StartsLastLine bytes start) (hmore : newline ∉ more) : StartsLastLine (bytes ++ more) start where
  first_or_behind := by
    rcases h.first_or_behind with hstart | ⟨i, hi, hstart⟩
    · exact .inl hstart
    · have hlt := (List.getElem?_eq_some_iff.1 hi).1
      exact .inr ⟨i, (List.getElem?_append_left hlt).trans hi, hstart⟩
  last i hi hnewline := by
    rcases Nat.lt_or_ge i bytes.length with hlt | hge
    · rw [List.getElem?_append_left hlt] at hnewline
      exact h.last i hi hnewline
    · rw [List.getElem?_append_right hge] at hnewline
      exact hmore (List.mem_of_getElem? hnewline)

/-- The only line is the one that starts with the first byte. -/
theorem eq_zero_iff (h : StartsLastLine bytes start) : start = 0 ↔ bytes.count newline = 0 := by
  rw [List.count_eq_zero]
  constructor
  · rintro rfl hmem
    obtain ⟨i, hi⟩ := List.getElem?_of_mem hmem
    exact h.last i (Nat.zero_le _) hi
  · intro hmem
    refine h.first_or_behind.resolve_right ?_
    rintro ⟨i, hi, -⟩
    exact hmem (List.mem_of_getElem? hi)

end StartsLastLine

/-! ## Positions -/

namespace Position

/-- The position of an offset, if these are the bytes before it. -/
def Behind (p : Position) (bytes : List UInt8) (offset : Nat) : Prop :=
  ∃ start, StartsLastLine bytes start ∧
    p = ⟨kept (1 + bytes.count newline), kept (1 + (offset - start))⟩

/-- In the order of a text. -/
def Before (p q : Position) : Prop := p.line < q.line ∨ p.line = q.line ∧ p.column < q.column

theorem kept_eq_iff {n : Nat} : kept n = n ↔ n < UInt32.size := Nat.mod_eq_iff_lt (by decide)

theorem kept_of_lt {n : Nat} (h : n < UInt32.size) : kept n = n := Nat.mod_eq_of_lt h

theorem kept_kept_add (m n : Nat) : kept (kept m + n) = kept (m + n) := Nat.mod_add_mod ..

namespace Behind

variable {p q : Position} {bytes : List UInt8} {offset : Nat}

theorem eq (hp : p.Behind bytes offset) (hq : q.Behind bytes offset) : p = q := by
  obtain ⟨start, hstart, rfl⟩ := hp
  obtain ⟨start', hstart', rfl⟩ := hq
  rw [hstart.unique hstart']

theorem start : Position.start.Behind [] 0 := ⟨0, .nil, rfl⟩

theorem advance (h : p.Behind bytes bytes.length) (c : Char) :
    (p.advance c).Behind (bytes ++ String.utf8EncodeChar c) (bytes ++ String.utf8EncodeChar c).length := by
  obtain ⟨start, hstart, rfl⟩ := h
  unfold Position.advance
  split
  · next hc =>
    subst hc
    have hencode : String.utf8EncodeChar '\n' = [newline] := rfl
    rw [hencode]
    refine ⟨bytes.length + 1, .append_newline bytes, ?_⟩
    simp only [kept_kept_add, List.count_append, List.count_singleton_self, List.length_append, List.length_singleton,
      Nat.sub_self, Nat.add_assoc]
    rfl
  · next hc =>
    have hmem := newline_not_mem_utf8EncodeChar hc
    refine ⟨start, hstart.append hmem, ?_⟩
    have hle := hstart.le_length
    rw [kept_kept_add, List.count_append, List.count_eq_zero.2 hmem, Nat.add_zero, List.length_append,
      String.length_utf8EncodeChar, Nat.add_assoc, Nat.sub_add_comm hle]

theorem after (h : p.Behind bytes bytes.length) (cs : List Char) :
    (p.after cs).Behind (bytes ++ bytesOf cs) (bytes ++ bytesOf cs).length := by
  induction cs generalizing p bytes with
  | nil => simpa using h
  | cons c cs ih => simpa [bytesOf_cons, List.append_assoc] using ih (h.advance c)

/-- A later offset has a later position: on a later line, or on the same line in a later column. -/
theorem before {more : List UInt8} {later : Nat} (hp : p.Behind bytes offset) (hq : q.Behind (bytes ++ more) later)
    (hlength : bytes.length ≤ offset) (hlength' : (bytes ++ more).length ≤ later) (hlt : offset < later)
    (hlater : later + 1 < UInt32.size) : p.Before q := by
  obtain ⟨start, hstart, rfl⟩ := hp
  obtain ⟨start', hstart', rfl⟩ := hq
  have hcount := List.count_le_length (l := bytes ++ more) (a := newline)
  rw [List.count_append] at hcount
  have hle := hstart.le_length
  by_cases hmem : newline ∈ more
  · left
    have hpos := List.count_pos_iff.2 hmem
    simp only [List.count_append]
    rw [kept_of_lt (by omega), kept_of_lt (by omega)]
    omega
  · right
    obtain rfl := hstart'.unique (hstart.append hmem)
    simp only [List.count_append, List.count_eq_zero.2 hmem, Nat.add_zero, true_and]
    rw [kept_of_lt (by omega), kept_of_lt (by omega)]
    omega

end Behind

end Position

/-! ## Line indices -/

namespace LineIndex

@[simp] theorem startsFrom_nil (offset : Nat) : startsFrom offset [] = [] := rfl

theorem startsFrom_cons (offset : Nat) (c : Char) (cs : List Char) : startsFrom offset (c :: cs) =
    if c = '\n' then (offset + c.utf8Size) :: startsFrom (offset + c.utf8Size) cs
    else startsFrom (offset + c.utf8Size) cs := rfl

theorem lt_of_mem_startsFrom {offset s : Nat} {cs : List Char} (h : s ∈ startsFrom offset cs) : offset < s := by
  induction cs generalizing offset with
  | nil => cases h
  | cons c cs ih =>
    have hsize := c.utf8Size_pos
    rw [startsFrom_cons] at h
    split at h
    · rcases List.mem_cons.1 h with rfl | h
      · omega
      · exact Nat.lt_trans (by omega) (ih h)
    · exact Nat.lt_trans (by omega) (ih h)

theorem startsFrom_sorted (offset : Nat) (cs : List Char) : (startsFrom offset cs).Pairwise (· < ·) := by
  induction cs generalizing offset with
  | nil => exact .nil
  | cons c cs ih =>
    rw [startsFrom_cons]
    split
    · exact .cons (fun _ => lt_of_mem_startsFrom) (ih _)
    · exact ih _

/-- Lines start behind newlines. -/
theorem mem_startsFrom {offset s : Nat} {cs : List Char} :
    s ∈ startsFrom offset cs ↔ ∃ i, (bytesOf cs)[i]? = some newline ∧ s = offset + i + 1 := by
  induction cs generalizing offset with
  | nil => simp
  | cons c cs ih =>
    rw [startsFrom_cons]
    split
    · next hc =>
      subst hc
      rw [List.mem_cons, ih, bytesOf_newline]
      constructor
      · rintro (rfl | ⟨i, hi, rfl⟩)
        · exact ⟨0, rfl, rfl⟩
        · exact ⟨i + 1, hi, by have : '\n'.utf8Size = 1 := rfl; omega⟩
      · rintro ⟨_ | i, hi, rfl⟩
        · exact .inl rfl
        · exact .inr ⟨i, hi, by have : '\n'.utf8Size = 1 := rfl; omega⟩
    · next hc =>
      have hmem := newline_not_mem_utf8EncodeChar hc
      rw [ih, bytesOf_cons]
      constructor
      · rintro ⟨i, hi, rfl⟩
        refine ⟨c.utf8Size + i, ?_, by omega⟩
        rwa [← String.length_utf8EncodeChar, List.getElem?_append_right (by omega), Nat.add_sub_cancel_left]
      · rintro ⟨i, hi, rfl⟩
        rcases Nat.lt_or_ge i (String.utf8EncodeChar c).length with hlt | hge
        · rw [List.getElem?_append_left hlt] at hi
          exact absurd (List.mem_of_getElem? hi) hmem
        · rw [List.getElem?_append_right hge] at hi
          rw [String.length_utf8EncodeChar] at hi hge
          exact ⟨i - c.utf8Size, hi, by omega⟩

/-- As many lines start up to an offset as there are newlines before it. -/
theorem countP_startsFrom (offset limit : Nat) (cs : List Char) :
    (startsFrom offset cs).countP (· ≤ limit) = ((bytesOf cs).take (limit - offset)).count newline := by
  induction cs generalizing offset with
  | nil => simp
  | cons c cs ih =>
    rw [startsFrom_cons]
    split
    · next hc =>
      subst hc
      have hsize : '\n'.utf8Size = 1 := rfl
      rw [List.countP_cons, ih, bytesOf_newline, hsize]
      rcases Nat.lt_or_ge offset limit with hlt | hge
      · obtain ⟨n, rfl⟩ : ∃ n, limit = offset + 1 + n := ⟨limit - (offset + 1), by omega⟩
        rw [Nat.add_sub_cancel_left, show offset + 1 + n - offset = n + 1 by omega, List.take_succ_cons,
          List.count_cons_self, if_pos (by simp)]
      · rw [Nat.sub_eq_zero_of_le hge, Nat.sub_eq_zero_of_le (by omega), if_neg (by simpa using Nat.lt_succ_of_le hge)]
        rfl
    · next hc =>
      have hmem (n : Nat) : newline ∉ (String.utf8EncodeChar c).take n := fun h =>
        newline_not_mem_utf8EncodeChar hc (List.mem_of_mem_take h)
      rw [ih, bytesOf_cons, List.take_append, List.count_append, List.count_eq_zero.2 (hmem _), Nat.zero_add,
        String.length_utf8EncodeChar, Nat.sub_sub]

/-- The index knows the position of every offset, also past the end of the text. -/
theorem locate?_behind (text : String) (offset : Nat) :
    ∃ p, (ofText text).locate? offset = some p ∧ p.Behind (bytesBefore text offset) offset := by
  have hsorted : (0 :: startsFrom 0 text.toList).Pairwise (· < ·) :=
    .cons (fun _ => lt_of_mem_startsFrom) (startsFrom_sorted 0 _)
  have hright : (binarySearch (ofText text).starts offset 0 (ofText text).starts.size).Right
      (0 :: startsFrom 0 text.toList) offset :=
    binarySearch_right hsorted (Nat.zero_le _) (Nat.le_refl _) (by simp) (by simp [ofText])
  obtain ⟨front, start, back, hsplit, hstart, hback, hfloor⟩ := hright.exists_floor hsorted rfl (Nat.zero_le _)
  have hlocate : (ofText text).locate? offset =
      some ⟨Position.kept (front.length + 1), Position.kept (offset - start + 1)⟩ := by
    rw [locate?, hfloor, ofText, hsplit]
    simp [hstart]
  rw [hsplit, List.pairwise_append] at hsorted
  obtain ⟨-, -, hfront⟩ := hsorted
  have hbefore : bytesBefore text offset = (bytesOf text.toList).take offset := by rw [bytesBefore, toUTF8_eq]
  -- the lines up to the one of the offset are those that start no later
  have hcount : (bytesBefore text offset).count newline = front.length := by
    have hall := congrArg (List.countP (· ≤ offset)) hsplit
    have hbelow : front.countP (· ≤ offset) = front.length := List.countP_eq_length.2 fun s hs => by
      have := hfront s hs start (.head _)
      simpa using by omega
    have habove : back.countP (· ≤ offset) = 0 := List.countP_eq_zero.2 fun s hs => by simpa using hback s hs
    rw [List.countP_cons, List.countP_append, List.countP_cons, hbelow, habove, countP_startsFrom] at hall
    simpa [hbefore, hstart] using hall
  refine ⟨_, hlocate, start, ⟨?_, fun i hi hnewline => ?_⟩, ?_⟩
  · have hmem : start ∈ 0 :: startsFrom 0 text.toList := by simp [hsplit]
    rcases List.mem_cons.1 hmem with rfl | hmem
    · exact .inl rfl
    · obtain ⟨i, hi, rfl⟩ := mem_startsFrom.1 hmem
      exact .inr ⟨i, by rw [hbefore, List.getElem?_take_of_lt (by omega), hi], by omega⟩
  · rw [hbefore, List.getElem?_take] at hnewline
    split at hnewline
    · next hlt =>
      have hmem : i + 1 ∈ 0 :: startsFrom 0 text.toList := .tail _ (mem_startsFrom.2 ⟨i, hnewline, by omega⟩)
      rw [hsplit, List.mem_append, List.mem_cons] at hmem
      rcases hmem with hmem | heq | hmem
      · have := hfront _ hmem start (.head _)
        omega
      · omega
      · have := hback _ hmem
        omega
    · cases hnewline
  · rw [hcount, Nat.add_comm front.length, Nat.add_comm (offset - start)]

end LineIndex

namespace Position

theorem behind_atOffset (text : String) (offset : Nat) :
    (atOffset text offset).Behind (bytesBefore text offset) offset := by
  obtain ⟨p, hp, hbehind⟩ := LineIndex.locate?_behind text offset
  rw [atOffset, hp]
  exact hbehind

/-- Going through the text leads to the same position. -/
theorem after_eq_atOffset {text : String} {cs rest : List Char} (h : text.toList = cs ++ rest) :
    start.after cs = atOffset text (bytesOf cs).length := by
  have hafter : (start.after cs).Behind (bytesOf cs) (bytesOf cs).length := Behind.start.after cs
  have hoffset := behind_atOffset text (bytesOf cs).length
  rw [bytesBefore, toUTF8_eq, h, bytesOf_append, List.take_left] at hoffset
  exact hafter.eq hoffset

/-- Behind more of a text, the position is further behind. -/
theorem after_before {cs ds : List Char} (hds : ds ≠ []) (hsize : (bytesOf (cs ++ ds)).length + 1 < UInt32.size) :
    (start.after cs).Before (start.after (cs ++ ds)) := by
  have hcs : (start.after cs).Behind (bytesOf cs) (bytesOf cs).length := Behind.start.after cs
  have hboth : (start.after (cs ++ ds)).Behind (bytesOf (cs ++ ds)) (bytesOf (cs ++ ds)).length :=
    Behind.start.after (cs ++ ds)
  rw [bytesOf_append] at hboth hsize
  have hlength := length_bytesOf_pos hds
  exact hcs.before hboth (Nat.le_refl _) (Nat.le_refl _) (by rw [List.length_append]; omega) hsize

end Position

end ClassScript
