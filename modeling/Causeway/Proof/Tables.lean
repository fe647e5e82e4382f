import Causeway.Model.Plant
import Causeway.Proof.Listeners
import Causeway.Proof.Stale

/-!
# The kernel's tables

What the tables say of the sockets of the machine. A process that is found to own two listeners has a socket for each of them.
-/

namespace Causeway

open Text

section

variable {order : ByteOrder} {socket : Socket} {w : Plant} {text : List Char} {c : Char} {fields : List (List Char)}
  {addr first second : SocketAddr} {inode n pid : Nat} {o : Answer}

theorem toString_injective {m n : Nat} (h : (toString m).toList = (toString n).toList) : m = n := by
  have hm := parseUnsigned_toString (Nat.lt_succ_of_le (Nat.le_max_left m n))
  have hn := parseUnsigned_toString (Nat.lt_succ_of_le (Nat.le_max_right m n))
  rw [h, hn] at hm
  exact (Option.some.inj hm).symm

theorem splitWhitespace_concat (hc : isWhitespace c = true) : splitWhitespace (text ++ [c]) = splitWhitespace text := by
  have hsplit : (text ++ [c]).splitOnP isWhitespace = text.splitOnP isWhitespace ++ [[]] := by
    induction text with
    | nil => simp [List.splitOnP_cons_eq_if_modifyHead, hc]
    | cons d text ih =>
        rw [List.cons_append, List.splitOnP_cons_eq_if_modifyHead, List.splitOnP_cons_eq_if_modifyHead, ih]
        split
        · rfl
        · obtain ⟨head, tail, heq⟩ := List.exists_cons_of_ne_nil (List.splitOnP_ne_nil isWhitespace text)
          rw [heq]
          rfl
  rw [splitWhitespace, hsplit, List.filter_append]
  exact List.append_nil _

theorem hexDigit_plain : ∀ n < 16, isWhitespace (hexDigit n) = false ∧ hexDigit n ≠ ')' := by decide

theorem byteHex_plain {bytes : List UInt8} (hc : c ∈ bytes.flatMap byteHex) : isWhitespace c = false ∧ c ≠ ')' := by
  obtain ⟨byte, -, hbyte⟩ := List.mem_flatMap.mp hc
  have hlt := byte.toNat_lt
  simp only [byteHex, List.mem_cons, List.not_mem_nil, or_false] at hbyte
  rcases hbyte with rfl | rfl
  · exact hexDigit_plain _ (by omega)
  · exact hexDigit_plain _ (by omega)

theorem digits_word (h : Digits text) : Word text := word_of_chars h.ne_nil fun _ hc => .inl (h.isAlphanum hc)

theorem word_of_all
    (h : (!text.isEmpty && text.all fun c => !isWhitespace c && decide (c ≠ ')')) = true) : Word text := by
  rw [Bool.and_eq_true, Bool.not_eq_true', List.isEmpty_eq_false_iff, List.all_eq_true] at h
  refine ⟨h.1, fun c hc => ?_⟩
  have hplain := h.2 c hc
  rw [Bool.and_eq_true, Bool.not_eq_true', decide_eq_true_eq] at hplain
  exact hplain

/-- No field of a row has a blank in it. -/
theorem procFields_words (h : procFields order socket = some fields) : ∀ field ∈ fields, Word field := by
  unfold procFields at h
  split at h
  · rename_i a b d e hip
    cases h
    have haddress : Word (procAddress order a b d e socket.addr.port) := by
      refine ⟨by simp [procAddress], fun c hc => ?_⟩
      simp only [procAddress, List.mem_append, List.mem_cons] at hc
      rcases hc with hc | rfl | hc
      · exact byteHex_plain hc
      · decide
      · exact byteHex_plain hc
    have hstate : Word (byteHex socket.state) := by
      refine ⟨by simp [byteHex], fun c hc => ?_⟩
      have hmem : c ∈ [socket.state].flatMap byteHex := by simpa using hc
      exact byteHex_plain hmem
    intro field hfield
    simp only [List.mem_cons, List.not_mem_nil, or_false] at hfield
    rcases hfield with rfl | rfl | rfl | rfl | rfl | rfl | rfl | rfl | rfl | rfl | rfl
    · exact word_of_all (by decide)
    · exact haddress
    · exact word_of_all (by decide)
    · exact hstate
    · exact word_of_all (by decide)
    · exact word_of_all (by decide)
    · exact word_of_all (by decide)
    · exact word_of_all (by decide)
    · exact word_of_all (by decide)
    · exact digits_word (digits_toString _)
    · exact word_of_all (by decide)
  · cases h

theorem splitWhitespace_procRow (h : procFields order socket = some fields) :
    splitWhitespace (procRow fields) = fields := by
  have hwords := splitWhitespace_words (procFields_words h)
  rw [splitWhitespace_concat (by decide)] at hwords
  rw [procRow, splitWhitespace_concat (by decide), hwords]

/-- The rows that are read from the table. -/
theorem textLines_procNetTcp :
    (textLines (w.procNetTcp order)).drop 1 = (w.sockets.filterMap (procFields order)).map procRow := by
  unfold Plant.procNetTcp
  rw [textLines_lines]
  · rfl
  · intro line hline
    rcases List.mem_cons.mp hline with rfl | hline
    · decide
    · obtain ⟨fields, hfields, rfl⟩ := List.mem_map.mp hline
      obtain ⟨socket, -, hsocket⟩ := List.mem_filterMap.mp hfields
      have hplain : ∀ c ∈ procRow fields, c = ' ' ∨ isWhitespace c = false := by
        intro c hc
        rcases List.mem_append.mp hc with hc | hc
        · obtain ⟨field, hfield, hc⟩ := List.mem_flatMap.mp hc
          rcases List.mem_cons.mp hc with rfl | hc
          · exact .inl rfl
          · exact .inr ((procFields_words hsocket field hfield).plain c hc).1
        · exact .inl (List.mem_singleton.mp hc)
      refine ⟨fun hc => ?_, fun hc => ?_⟩
      · exact (hplain _ hc).elim (by decide) (by decide)
      · exact (hplain _ hc).elim (by decide) (by decide)

theorem procFields_v4 {a b c d : UInt8} (h : socket.addr.ip = .v4 a b c d) :
    procFields order socket = some ["0:".toList, kernelAddress order a b c d socket.addr.port, "00000000:0000".toList,
      byteHex socket.state, "00000000:00000000".toList, "00:00000000".toList, "00000000".toList, "1000".toList,
      "0".toList, (toString socket.inode).toList, "1".toList] := by
  unfold procFields
  rw [h]
  rfl

theorem byteHex_listen : byteHex socket.state = "0A".toList ↔ socket.state = tcpListen := by
  constructor
  · intro h
    have hbytes : [socket.state].flatMap byteHex = [tcpListen].flatMap byteHex := by
      rw [List.flatMap_singleton, List.flatMap_singleton, h]
      decide
    exact (List.cons.inj (flatMap_byteHex_injective hbytes)).1
  · intro h
    rw [h]
    decide

/-- A row of the table is a socket of the machine. -/
theorem listensAt_iff (hv4 : addr.IsV4) : ListensAt order (w.procNetTcp order) addr text ↔
    ∃ socket ∈ w.sockets, socket.state = tcpListen ∧ socket.addr = addr ∧ (toString socket.inode).toList = text := by
  unfold ListensAt
  rw [textLines_procNetTcp]
  constructor
  · rintro ⟨a, b, c, d, hip, line, hline, -, hstate, hkey, hinode⟩
    obtain ⟨fields, hfields, rfl⟩ := List.mem_map.mp hline
    obtain ⟨socket, hsocket, heq⟩ := List.mem_filterMap.mp hfields
    rw [splitWhitespace_procRow heq] at hstate hkey hinode
    cases hsource : socket.addr.ip with
    | v6 text =>
        rw [procFields, hsource] at heq
        cases heq
    | v4 a' b' c' d' =>
        rw [procFields_v4 hsource] at heq
        cases heq
        obtain ⟨haddr, hport⟩ := kernelAddress_injective (Option.some.inj hkey)
        refine ⟨socket, hsocket, byteHex_listen.mp (Option.some.inj hstate), ?_, Option.some.inj hinode⟩
        have hips : socket.addr.ip = addr.ip := by rw [hsource, hip, haddr]
        cases hsocketAddr : socket.addr
        cases addr
        rw [hsocketAddr] at hips hport
        exact congrArg₂ SocketAddr.mk hips hport
  · rintro ⟨socket, hsocket, hstate, rfl, rfl⟩
    obtain ⟨a, b, c, d, hip⟩ := hv4
    have hfields : procFields order socket = some _ := procFields_v4 hip
    refine ⟨a, b, c, d, hip, _, List.mem_map_of_mem (List.mem_filterMap.mpr ⟨socket, hsocket, hfields⟩), ?_⟩
    rw [splitWhitespace_procRow hfields]
    exact ⟨by simp, congrArg some (byteHex_listen.mpr hstate), rfl, rfl⟩

/-- A descriptor of a socket is a socket that the process holds. -/
theorem procFds_holds : Descriptors.Holds (w.procFds o pid) (toString n).toList ↔ (w.processes pid).isSome = true ∧
    ∃ socket ∈ w.sockets, .process pid ∈ socket.holders ∧ socket.inode = n := by
  unfold Plant.procFds
  cases w.processes pid with
  | none =>
      constructor
      · rintro ⟨targets, ⟨⟩, -⟩
      · rintro ⟨⟨⟩, -⟩
  | some entry =>
      simp only [Descriptors.Holds, Option.map_some, Option.some.injEq, exists_eq_left', List.mem_append, List.mem_filter,
        List.mem_map, Option.isSome_some, true_and, decide_eq_true_eq]
      constructor
      · rintro (⟨-, hnone⟩ | ⟨socket, ⟨hsocket, hholds⟩, heq⟩)
        · rw [Option.bind_some, socketInode_eq_some.mpr rfl] at hnone
          cases hnone
        · rw [List.append_assoc, List.append_assoc, List.append_cancel_left_eq, List.append_cancel_right_eq] at heq
          exact ⟨socket, hsocket, hholds, toString_injective heq⟩
      · rintro ⟨socket, hsocket, hholds, rfl⟩
        exact .inr ⟨socket, ⟨hsocket, hholds⟩, rfl⟩

end

end Causeway
