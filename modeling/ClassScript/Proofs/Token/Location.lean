import ClassScript.Proofs.Text.Position
import ClassScript.Proofs.Tree.Through
import ClassScript.Token.Scan
/-!
# Where tokens stand

The scanner keeps the position as it goes through the text. Each lexeme has at least one character, so tokens stand
at places further and further behind (`tokensFrom_cuts`), and their positions are those of byte offsets in the text.
A line or column is right if it fits into 32 bits. Of the offsets that fit, only the largest may have one that does
not (`locate_right_iff`).
-/

namespace ClassScript

namespace Token

/-- Each token is the text behind a prefix, and these prefixes get longer. -/
theorem tokensFrom_cuts {pos : Position} {cs : List Char} {tokens : Tokens} (h : tokensFrom pos cs = .ok tokens) :
    tokens.finish = pos.after cs ∧ ∃ cuts : List Nat, cuts.Pairwise (· < ·) ∧ (∀ n ∈ cuts, n < cs.length) ∧
      tokens.list.map (·.pos) = cuts.map fun n => pos.after (cs.take n) := by
  fun_induction tokensFrom pos cs generalizing tokens with
  | case1 pos =>
    cases h
    exact ⟨rfl, [], .nil, List.forall_mem_nil _, rfl⟩
  | case2 => cases h
  | case3 =>
    cases h
    exact ⟨rfl, [], .nil, List.forall_mem_nil _, rfl⟩
  | case4 pos c rest best text _ _ =>
    rename_i ih
    have hsplit : c :: rest = text ++ rest.drop (best.2 - 1) := by simp [text]
    have hafter (n : Nat) : (pos.after text).after ((rest.drop (best.2 - 1)).take n) =
        pos.after ((c :: rest).take (text.length + n)) := by
      rw [hsplit, List.take_length_add_append, Position.after_append]
    obtain ⟨kind, -, h⟩ := bind_eq_ok.1 h
    obtain ⟨more, hmore, h⟩ := bind_eq_ok.1 h
    obtain ⟨hfinish, cuts, hsorted, hcuts, hpos⟩ := ih hmore
    have hcut (n : Nat) (hn : n ∈ cuts.map (text.length + ·)) : 0 < n ∧ n < (c :: rest).length := by
      obtain ⟨m, hm, rfl⟩ := List.mem_map.1 hn
      have hlt := hcuts m hm
      rw [hsplit, List.length_append]
      exact ⟨Nat.lt_of_lt_of_le (Nat.succ_pos _) (Nat.le_add_right _ m), by omega⟩
    have hshifted : (cuts.map (text.length + ·)).Pairwise (· < ·) :=
      List.pairwise_map.2 (hsorted.imp fun hlt => Nat.add_lt_add_left hlt _)
    have hmap : more.list.map (·.pos) = (cuts.map (text.length + ·)).map fun n => pos.after ((c :: rest).take n) := by
      rw [hpos, List.map_map]
      exact List.map_congr_left fun n _ => hafter n
    have hend : more.finish = pos.after (c :: rest) := by rw [hfinish, ← Position.after_append, ← hsplit]
    cases kind with
    | none =>
      cases h
      exact ⟨hend, _, hshifted, fun n hn => (hcut n hn).2, hmap⟩
    | some kind =>
      cases h
      refine ⟨hend, 0 :: cuts.map (text.length + ·), .cons (fun n hn => (hcut n hn).1) hshifted, ?_, ?_⟩
      · exact List.forall_mem_cons.2 ⟨Nat.succ_pos _, fun n hn => (hcut n hn).2⟩
      · rw [List.map_cons, hmap]
        rfl

/-- A longer prefix is the shorter one and something more. -/
theorem exists_take_append {cs : List Char} {n m : Nat} (hlt : n < m) (hm : m ≤ cs.length) :
    ∃ ds, ds ≠ [] ∧ cs.take m = cs.take n ++ ds := by
  refine ⟨(cs.take m).drop n, List.ne_nil_of_length_pos ?_, ?_⟩
  · rw [List.length_drop, List.length_take]
    omega
  · have hsplit := List.take_append_drop n (cs.take m)
    rw [List.take_take, Nat.min_eq_left (Nat.le_of_lt hlt)] at hsplit
    exact hsplit.symm

theorem length_bytesOf_take_lt {cs : List Char} {n m : Nat} (hlt : n < m) (hm : m ≤ cs.length) :
    (bytesOf (cs.take n)).length < (bytesOf (cs.take m)).length := by
  obtain ⟨ds, hds, htake⟩ := exists_take_append hlt hm
  rw [htake, bytesOf_append, List.length_append]
  exact Nat.lt_add_of_pos_right (length_bytesOf_pos hds)

theorem length_bytesOf_take_le (text : String) (n : Nat) :
    (bytesOf (text.toList.take n)).length ≤ text.utf8ByteSize := by
  rw [← length_bytesOf_toList, ← List.take_append_drop n text.toList, bytesOf_append, List.length_append]
  simp

section Scan

variable {text : String} {tokens : Tokens} (h : scan text = .ok tokens)

include h

theorem scan_finish : tokens.finish = .atOffset text text.utf8ByteSize := by
  rw [(tokensFrom_cuts h).1, ← length_bytesOf_toList]
  exact Position.after_eq_atOffset (List.append_nil _).symm

/-- Tokens stand at offsets in the text, one behind the other. -/
theorem scan_offsets : ∃ offsets : List Nat, offsets.Pairwise (· < ·) ∧ (∀ o ∈ offsets, o < text.utf8ByteSize) ∧
    tokens.list.map (·.pos) = offsets.map (Position.atOffset text) := by
  obtain ⟨-, cuts, hsorted, hcuts, hpos⟩ := tokensFrom_cuts h
  refine ⟨cuts.map fun n => (bytesOf (text.toList.take n)).length, ?_, ?_, ?_⟩
  · exact List.pairwise_map.2 (hsorted.imp_of_mem fun _ hm hlt =>
      length_bytesOf_take_lt hlt (Nat.le_of_lt (hcuts _ hm)))
  · exact List.forall_mem_map.2 fun n hn =>
      Nat.lt_of_lt_of_le (length_bytesOf_take_lt (hcuts n hn) (Nat.le_refl _)) (length_bytesOf_take_le text _)
  · rw [hpos, List.map_map]
    exact List.map_congr_left fun n _ => Position.after_eq_atOffset (List.take_append_drop n _).symm

/-- Tokens, and the end behind them, have increasing positions. -/
theorem scan_increasing (hsize : text.utf8ByteSize + 1 < UInt32.size) :
    (tokens.list.map (·.pos) ++ [tokens.finish]).Pairwise Position.Before := by
  obtain ⟨hfinish, cuts, hsorted, hcuts, hpos⟩ := tokensFrom_cuts h
  have hends : tokens.list.map (·.pos) ++ [tokens.finish] =
      (cuts ++ [text.toList.length]).map fun n => Position.start.after (text.toList.take n) := by
    rw [List.map_append, List.map_singleton, List.take_length, hpos, hfinish]
  have hsortedEnds : (cuts ++ [text.toList.length]).Pairwise (· < ·) := by
    refine List.pairwise_append.2 ⟨hsorted, List.pairwise_singleton _ _, fun n hn m hm => ?_⟩
    rw [List.mem_singleton.1 hm]
    exact hcuts n hn
  rw [hends, List.pairwise_map]
  refine hsortedEnds.imp_of_mem fun {n m} _ hm hlt => ?_
  have hle : m ≤ text.toList.length := by
    rcases List.mem_append.1 hm with hm | hm
    · exact Nat.le_of_lt (hcuts m hm)
    · exact Nat.le_of_eq (List.mem_singleton.1 hm)
  obtain ⟨ds, hds, htake⟩ := exists_take_append hlt hle
  have hprefix := length_bytesOf_take_le text m
  rw [htake] at hprefix ⊢
  exact Position.after_before hds (by omega)

end Scan

end Token

/-- The index knows the position of every offset, and it is right unless the line or the column does not fit into 32
bits, which of the offsets below `2 ^ 32` happens to the last one only: if there is no newline before it, or nothing
but newlines. The tokens of a text stand at increasing positions, all before its end, as long as the position of the
end is right. -/
theorem positions_right_iff (text : String) {offset : Nat} (hoffset : offset < UInt32.size) :
    (∃ p start, (LineIndex.ofText text).locate? offset = some p ∧ StartsLastLine (bytesBefore text offset) start ∧
      (p = ⟨1 + (bytesBefore text offset).count newline, 1 + (offset - start)⟩ ↔ offset + 1 < UInt32.size ∨
        0 < (bytesBefore text offset).count newline ∧ (bytesBefore text offset).count newline + 1 < UInt32.size)) ∧
    ∀ tokens, Token.scan text = .ok tokens →
      tokens.finish = .atOffset text text.utf8ByteSize ∧
      (∃ offsets : List Nat, offsets.Pairwise (· < ·) ∧ (∀ o ∈ offsets, o < text.utf8ByteSize) ∧
        tokens.list.map (·.pos) = offsets.map (Position.atOffset text)) ∧
      (text.utf8ByteSize + 1 < UInt32.size →
        (tokens.list.map (·.pos) ++ [tokens.finish]).Pairwise Position.Before) := by
  refine ⟨?_, fun tokens h => ⟨Token.scan_finish h, Token.scan_offsets h, Token.scan_increasing h⟩⟩
  obtain ⟨p, hp, start, hstart, rfl⟩ := LineIndex.locate?_behind text offset
  refine ⟨_, start, hp, hstart, ?_⟩
  have hcount : (bytesBefore text offset).count newline ≤ offset :=
    Nat.le_trans List.count_le_length (List.length_take_le _ _)
  have hzero := hstart.eq_zero_iff
  rw [Position.mk.injEq, Position.kept_eq_iff, Position.kept_eq_iff]
  omega

/-- The column of the largest offset in an empty text does not fit. -/
theorem last_offset_wrong : 4294967295 < UInt32.size ∧ (LineIndex.ofText "").locate? 4294967295 = some ⟨1, 0⟩ ∧
    ¬∃ p start, (LineIndex.ofText "").locate? 4294967295 = some p ∧ StartsLastLine (bytesBefore "" 4294967295) start ∧
      p = ⟨1 + (bytesBefore "" 4294967295).count newline, 1 + (4294967295 - start)⟩ := by
  have hlocate : (LineIndex.ofText "").locate? 4294967295 = some ⟨1, 0⟩ := by decide +kernel
  refine ⟨by decide, hlocate, ?_⟩
  rintro ⟨p, start, hp, -, rfl⟩
  have hcolumn : 0 = 1 + (4294967295 - start) := congrArg Position.column (Option.some.inj (hlocate.symm.trans hp))
  omega

/-- The semicolon of a text with two tokens on two lines. -/
theorem two_lines_right : 3 < UInt32.size ∧
    (∃ start, StartsLastLine (bytesBefore "$a\n;" 3) start ∧ (LineIndex.ofText "$a\n;").locate? 3 =
      some ⟨1 + (bytesBefore "$a\n;" 3).count newline, 1 + (3 - start)⟩) ∧
    ∃ tokens, Token.scan "$a\n;" = .ok tokens ∧ tokens.list.map (·.pos) = [⟨1, 1⟩, ⟨2, 1⟩] ∧
      (tokens.list.map (·.pos) ++ [tokens.finish]).Pairwise Position.Before := by
  have hoffset : 3 < UInt32.size := by decide
  obtain ⟨⟨p, start, hp, hstart, hright⟩, htokens⟩ := positions_right_iff "$a\n;" hoffset
  have hscan : (Token.scan "$a\n;").toOption = some ⟨[⟨.variable "a", ⟨1, 1⟩⟩, ⟨.punct ";", ⟨2, 1⟩⟩], ⟨2, 2⟩⟩ := by
    decide +kernel
  have hok := toOption_eq_some.1 hscan
  refine ⟨hoffset, ⟨start, hstart, ?_⟩, _, hok, rfl, (htokens _ hok).2.2 (by decide +kernel)⟩
  rw [hp, hright.2 (.inl (by decide))]

end ClassScript
