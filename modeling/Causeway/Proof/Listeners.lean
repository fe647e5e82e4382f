import Mathlib.Data.List.ReduceOption
import Causeway.Model.Listeners
import Causeway.Proof.Identity

/-!
# Owned listeners

The check compares the number of listening sockets at two addresses with the number of addresses. That each address has one is a different matter.
-/

namespace Causeway

open Text

variable {order : ByteOrder} {addr first second : SocketAddr} {table line inode target : List Char}
  {targets : List (Option (List Char))} {wanted : Finset (List Char)}

/-! ### Keys -/

/-- The bytes of a port, the higher one first. -/
def portBytes (port : UInt16) : List UInt8 := [UInt8.ofNat (port.toNat / 256), UInt8.ofNat (port.toNat % 256)]

/-- The kernel prints an address in memory as a number of the machine: the bytes from the most significant one down. -/
def kernelAddress (order : ByteOrder) (a b c d : UInt8) (port : UInt16) : List Char :=
  (match order with
    | .little => [d, c, b, a]
    | .big => [a, b, c, d]).flatMap byteHex ++
    ':' :: (portBytes port).flatMap byteHex

theorem paddedHex_bytes (a b c d : UInt8) :
    paddedHex 8 (256 * (256 * (256 * a.toNat + b.toNat) + c.toNat) + d.toNat) = [a, b, c, d].flatMap byteHex := by
  have ha := a.toNat_lt
  have hb := b.toNat_lt
  have hc := c.toNat_lt
  have hd := d.toNat_lt
  rw [paddedHex_eq (by decide) (by omega), placesHex_byte, placesHex_byte, placesHex_byte, placesHex_two]
  simp

theorem toNat_portBytes (port : UInt16) : (portBytes port).map UInt8.toNat = [port.toNat / 256, port.toNat % 256] := by
  have hport := port.toNat_lt
  have hhigh : (UInt8.ofNat (port.toNat / 256)).toNat = port.toNat / 256 := by
    apply UInt8.toNat_ofNat_of_lt'
    rw [UInt8.size]
    omega
  have hlow : (UInt8.ofNat (port.toNat % 256)).toNat = port.toNat % 256 := by
    apply UInt8.toNat_ofNat_of_lt'
    rw [UInt8.size]
    omega
  rw [portBytes, List.map_cons, List.map_singleton, hhigh, hlow]

theorem paddedHex_port (port : UInt16) : paddedHex 4 port.toNat = (portBytes port).flatMap byteHex := by
  have hport := port.toNat_lt
  obtain ⟨hhigh, hlow⟩ := List.cons.inj (toNat_portBytes port)
  have hlow := (List.cons.inj hlow).1
  have hplaces : placesHex 4 port.toNat =
      placesHex 4 (256 * (UInt8.ofNat (port.toNat / 256)).toNat + (UInt8.ofNat (port.toNat % 256)).toNat) := by
    rw [hhigh, hlow, Nat.div_add_mod]
  rw [paddedHex_eq (by decide) (by omega), hplaces, placesHex_byte, placesHex_two]
  simp [portBytes]

theorem portBytes_injective {port other : UInt16} (h : portBytes port = portBytes other) : port = other := by
  have hbytes := congrArg (List.map UInt8.toNat) h
  rw [toNat_portBytes, toNat_portBytes] at hbytes
  simp only [List.cons.injEq, and_true] at hbytes
  apply UInt16.toNat_inj.mp
  omega

/-- The key of an address is the kernel's text for it, on machines of both byte orders. -/
theorem listenerKey_eq {a b c d : UInt8} (h : addr.ip = .v4 a b c d) :
    listenerKey order addr = .ok (kernelAddress order a b c d addr.port) := by
  have hbytes (a b c d : UInt8) : (UInt32.ofNat (256 * (256 * (256 * a.toNat + b.toNat) + c.toNat) + d.toNat)).toNat =
      256 * (256 * (256 * a.toNat + b.toNat) + c.toNat) + d.toNat := by
    have ha := a.toNat_lt
    have hb := b.toNat_lt
    have hc := c.toNat_lt
    have hd := d.toNat_lt
    apply UInt32.toNat_ofNat_of_lt'
    rw [UInt32.size]
    omega
  unfold listenerKey kernelAddress
  rw [h]
  dsimp only
  rw [paddedHex_port]
  cases order with
  | little =>
      dsimp only [fromNeBytes]
      rw [hbytes, paddedHex_bytes]
  | big =>
      dsimp only [fromNeBytes]
      rw [hbytes, paddedHex_bytes]

theorem kernelAddress_injective {a b c d a' b' c' d' : UInt8} {port port' : UInt16}
    (h : kernelAddress order a b c d port = kernelAddress order a' b' c' d' port') :
    IpAddr.v4 a b c d = .v4 a' b' c' d' ∧ port = port' := by
  unfold kernelAddress at h
  have hlength (bytes others : List UInt8) (hlen : bytes.length = others.length) :
      (bytes.flatMap byteHex).length = (others.flatMap byteHex).length := by
    simp [List.length_flatMap, byteHex, hlen]
  cases order with
  | little =>
      obtain ⟨hbytes, hport⟩ := List.append_inj h (hlength _ _ rfl)
      have hports := portBytes_injective (flatMap_byteHex_injective (List.cons.inj hport).2)
      have hip := flatMap_byteHex_injective hbytes
      simp only [List.cons.injEq, and_true] at hip
      simp [hip, hports]
  | big =>
      obtain ⟨hbytes, hport⟩ := List.append_inj h (hlength _ _ rfl)
      have hports := portBytes_injective (flatMap_byteHex_injective (List.cons.inj hport).2)
      have hip := flatMap_byteHex_injective hbytes
      simp only [List.cons.injEq, and_true] at hip
      simp [hip, hports]

/-! ### Sockets -/

def SocketAddr.IsV4 (addr : SocketAddr) : Prop := ∃ a b c d, addr.ip = .v4 a b c d

/-- A row of the table says that a socket listens at the address. -/
def ListensAt (order : ByteOrder) (table : List Char) (addr : SocketAddr) (inode : List Char) : Prop :=
  ∃ a b c d, addr.ip = .v4 a b c d ∧ ∃ line ∈ (textLines table).drop 1, 9 < (splitWhitespace line).length ∧
    (splitWhitespace line)[3]? = some "0A".toList ∧
    (splitWhitespace line)[1]? = some (kernelAddress order a b c d addr.port) ∧ (splitWhitespace line)[9]? = some inode

def Descriptors.Holds (fds : Descriptors) (inode : List Char) : Prop :=
  ∃ targets, fds = some targets ∧ some ("socket:[".toList ++ inode ++ [']']) ∈ targets

theorem socketInode_eq_some : socketInode target = some inode ↔ target = "socket:[".toList ++ inode ++ [']'] := by
  unfold socketInode
  rw [Option.bind_eq_some_iff]
  constructor
  · intro ⟨rest, hrest, hinode⟩
    unfold stripSuffix at hinode
    split at hinode
    · rename_i hsuffix
      obtain ⟨text, rfl⟩ := List.isSuffixOf_iff_suffix.mp hsuffix
      have htake : (text ++ [']']).take ((text ++ [']']).length - [']'].length) = text := by simp
      rw [htake] at hinode
      rw [eq_of_stripPrefix hrest, Option.some.inj hinode, List.append_assoc]
    · cases hinode
  · rintro rfl
    refine ⟨inode ++ [']'], ?_, ?_⟩
    · rw [List.append_assoc, stripPrefix_append]
    · rw [stripSuffix, if_pos (by simp)]
      simp

theorem mem_listening {a b c d a' b' c' d' : UInt8} (hfirst : first.ip = .v4 a b c d)
    (hsecond : second.ip = .v4 a' b' c' d')
    (hwanted : wanted = {kernelAddress order a b c d first.port, kernelAddress order a' b' c' d' second.port}) :
    inode ∈ (((textLines table).drop 1).filterMap (listeningInode wanted)).toFinset ↔
      ListensAt order table first inode ∨ ListensAt order table second inode := by
  simp only [List.mem_toFinset, List.mem_filterMap]
  constructor
  · intro ⟨line, hline, hinode⟩
    unfold listeningInode at hinode
    dsimp only at hinode
    split at hinode
    · rename_i hrow
      obtain ⟨hlength, hstate, hlocal⟩ := hrow
      obtain ⟨key, hkey, hmem⟩ := (Option.any_eq_true _ _).mp hlocal
      simp only [hwanted, Finset.mem_insert, Finset.mem_singleton, decide_eq_true_eq] at hmem
      rcases hmem with rfl | rfl
      · exact .inl ⟨a, b, c, d, hfirst, line, hline, hlength, hstate, hkey, hinode⟩
      · exact .inr ⟨a', b', c', d', hsecond, line, hline, hlength, hstate, hkey, hinode⟩
    · cases hinode
  · intro h
    rcases h with ⟨_, _, _, _, hip, line, hline, hlength, hstate, hkey, hinode⟩ |
      ⟨_, _, _, _, hip, line, hline, hlength, hstate, hkey, hinode⟩
    · rw [hfirst] at hip
      cases hip
      refine ⟨line, hline, ?_⟩
      rw [listeningInode, if_pos ⟨hlength, hstate, by simp [hkey, hwanted]⟩, hinode]
    · rw [hsecond] at hip
      cases hip
      refine ⟨line, hline, ?_⟩
      rw [listeningInode, if_pos ⟨hlength, hstate, by simp [hkey, hwanted]⟩, hinode]

/-- The sockets at the two addresses are two in all. -/
def TwoSockets (order : ByteOrder) (table : List Char) (first second : SocketAddr) : Prop :=
  ∃ inode other, inode ≠ other ∧
    ∀ found, ListensAt order table first found ∨ ListensAt order table second found ↔ found = inode ∨ found = other

/-- The check counts. -/
theorem childOwnsListeners_eq_true {fds : Descriptors} (hfirst : first.IsV4) (hsecond : second.IsV4)
    (hne : first ≠ second) :
    childOwnsListeners order (.ok table) (.ok fds) first second = .ok true ↔ TwoSockets order table first second ∧
      ∀ inode, ListensAt order table first inode ∨ ListensAt order table second inode → fds.Holds inode := by
  obtain ⟨a, b, c, d, hip⟩ := hfirst
  obtain ⟨a', b', c', d', hip'⟩ := hsecond
  have hkeys : kernelAddress order a b c d first.port ≠ kernelAddress order a' b' c' d' second.port := by
    intro heq
    obtain ⟨hips, hports⟩ := kernelAddress_injective heq
    apply hne
    cases first
    cases second
    rw [← hip, ← hip'] at hips
    simp_all
  unfold childOwnsListeners
  rw [listenerKey_eq hip, listenerKey_eq hip']
  dsimp only [bind, Except.bind]
  generalize hwanted : ({kernelAddress order a b c d first.port, kernelAddress order a' b' c' d' second.port} :
    Finset (List Char)) = wanted
  have hcard : wanted.card = 2 := by rw [← hwanted, Finset.card_pair hkeys]
  have hmem (inode : List Char) :=
    @mem_listening order first second table inode wanted _ _ _ _ _ _ _ _ hip hip' hwanted.symm
  generalize hlistening : (((textLines table).drop 1).filterMap (listeningInode wanted)).toFinset = listening at hmem
  have htwo : listening.card = wanted.card ↔ TwoSockets order table first second := by
    rw [hcard, Finset.card_eq_two]
    unfold TwoSockets
    simp only [← hmem, Finset.ext_iff, Finset.mem_insert, Finset.mem_singleton]
  rw [← htwo]
  simp only [← hmem]
  by_cases hcount : listening.card = wanted.card
  · rw [if_neg (not_not.mpr hcount)]
    cases fds with
    | none =>
        have hsome : listening.Nonempty := by
          rw [← Finset.card_pos]
          omega
        obtain ⟨inode, hinode⟩ := hsome
        simp only [pure, Except.pure, Except.ok.injEq, Bool.false_eq_true, false_iff]
        intro ⟨_, hall⟩
        obtain ⟨targets, htargets, -⟩ := hall inode hinode
        cases htargets
    | some targets =>
        have howned : ((targets.reduceOption.filterMap socketInode).filter (· ∈ listening)).toFinset = listening ↔
            ∀ inode ∈ listening, Descriptors.Holds (some targets) inode := by
          simp only [Finset.ext_iff, List.mem_toFinset, List.mem_filter, List.mem_filterMap, List.reduceOption_mem_iff,
            socketInode_eq_some, decide_eq_true_eq, Descriptors.Holds, Option.some.injEq, exists_eq_left',
            exists_eq_right, and_iff_right_iff_imp]
        simp only [pure, Except.pure, Except.ok.injEq, decide_eq_true_eq, howned, hcount, true_and]
  · rw [if_pos hcount]
    simp [pure, Except.pure, hcount]

/-- Each address has a listening socket, and the process holds all of them. -/
structure OwnsBoth (order : ByteOrder) (table : List Char) (fds : Descriptors) (first second : SocketAddr) : Prop where
  one : ∃ inode, ListensAt order table first inode
  other : ∃ inode, ListensAt order table second inode
  owned : ∀ inode, ListensAt order table first inode ∨ ListensAt order table second inode → fds.Holds inode

/-- Where two in all is not one for each address. -/
inductive Miscounted (order : ByteOrder) (table : List Char) (first second : SocketAddr) : Prop where
  /-- One address has exactly two sockets, and the other has none. -/
  | shared (addr other : SocketAddr) (haddrs : addr = first ∧ other = second ∨ addr = second ∧ other = first)
      (htwo : ∃ inode inode', inode ≠ inode' ∧ ∀ found, ListensAt order table addr found ↔ found = inode ∨ found = inode')
      (hnone : ∀ found, ¬ ListensAt order table other found)
  /-- Both have a socket, and the sockets are not two in all. -/
  | crowded (hfirst : ∃ inode, ListensAt order table first inode) (hsecond : ∃ inode, ListensAt order table second inode)
      (hcount : ¬ TwoSockets order table first second)

theorem miscounted_iff : Miscounted order table first second ↔
    ¬ (TwoSockets order table first second ↔
      (∃ inode, ListensAt order table first inode) ∧ ∃ inode, ListensAt order table second inode) := by
  constructor
  · intro h heq
    cases h with
    | shared addr other haddrs htwo hnone =>
        obtain ⟨inode, inode', hne, hall⟩ := htwo
        rcases haddrs with ⟨rfl, rfl⟩ | ⟨rfl, rfl⟩
        · obtain ⟨-, found, hfound⟩ := heq.mp ⟨inode, inode', hne, fun found => by simp [hnone, hall]⟩
          exact hnone found hfound
        · obtain ⟨⟨found, hfound⟩, -⟩ := heq.mp ⟨inode, inode', hne, fun found => by simp [hnone, hall]⟩
          exact hnone found hfound
    | crowded hfirst hsecond hcount => exact hcount (heq.mpr ⟨hfirst, hsecond⟩)
  · intro hne
    by_cases htwo : TwoSockets order table first second
    · obtain ⟨inode, inode', hdistinct, hall⟩ := htwo
      by_cases hfirst : ∃ inode, ListensAt order table first inode
      · have hsecond : ∀ found, ¬ ListensAt order table second found := fun found hfound =>
          hne (iff_of_true ⟨inode, inode', hdistinct, hall⟩ ⟨hfirst, found, hfound⟩)
        exact .shared first second (.inl ⟨rfl, rfl⟩) ⟨inode, inode', hdistinct, fun found => by simp [← hall, hsecond]⟩ hsecond
      · have hnone : ∀ found, ¬ ListensAt order table first found := fun found hfound => hfirst ⟨found, hfound⟩
        exact .shared second first (.inr ⟨rfl, rfl⟩) ⟨inode, inode', hdistinct, fun found => by simp [← hall, hnone]⟩ hnone
    · by_contra hnot
      exact hne (iff_of_false htwo fun h => hnot (.crowded h.1 h.2 htwo))

/-- The count is right if and only if some socket is not held or the sockets are not miscounted. -/
theorem child_owns_listeners_iff (order : ByteOrder) (table : List Char) (fds : Descriptors) (first second : SocketAddr)
    (hfirst : first.IsV4) (hsecond : second.IsV4) (hne : first ≠ second) :
    ((childOwnsListeners order (.ok table) (.ok fds) first second = .ok true ↔ OwnsBoth order table fds first second) ↔
      (∃ inode, (ListensAt order table first inode ∨ ListensAt order table second inode) ∧ ¬ fds.Holds inode) ∨
        ¬ Miscounted order table first second) ∧
    ∀ addr a b c d, addr.ip = .v4 a b c d → listenerKey order addr = .ok (kernelAddress order a b c d addr.port) := by
  constructor
  · rw [childOwnsListeners_eq_true hfirst hsecond hne, miscounted_iff, not_not]
    by_cases hall : ∀ inode, ListensAt order table first inode ∨ ListensAt order table second inode → fds.Holds inode
    · have hnone : ¬ ∃ inode, (ListensAt order table first inode ∨ ListensAt order table second inode) ∧
          ¬ fds.Holds inode := by
        intro ⟨inode, hinode, hfree⟩
        exact hfree (hall inode hinode)
      have hboth : OwnsBoth order table fds first second ↔
          (∃ inode, ListensAt order table first inode) ∧ ∃ inode, ListensAt order table second inode := by
        constructor
        · intro h
          exact ⟨h.one, h.other⟩
        · intro h
          exact ⟨h.1, h.2, hall⟩
      rw [and_iff_left hall, hboth, or_iff_right hnone]
    · have hsome : ∃ inode, (ListensAt order table first inode ∨ ListensAt order table second inode) ∧
          ¬ fds.Holds inode := by
        simpa using hall
      have hboth : ¬ OwnsBoth order table fds first second := by
        intro h
        exact hall h.owned
      have htrue : ¬ (TwoSockets order table first second ∧
          ∀ inode, ListensAt order table first inode ∨ ListensAt order table second inode → fds.Holds inode) := by
        intro h
        exact hall h.2
      exact iff_of_true (iff_of_false htrue hboth) (.inl hsome)
  · intro addr a b c d hip
    exact listenerKey_eq hip

namespace Sample

def socksAddr : SocketAddr := ⟨.v4 127 0 0 1, 1080⟩

def httpAddr : SocketAddr := ⟨.v4 127 0 0 1, 1081⟩

/-- A row of the kernel's table for a socket that listens at the first address. -/
def socksRow (slot inode : String) : List Char :=
  [slot, "0100007F:0438", "00000000:0000", "0A", "00000000:00000000", "00:00000000", "00000000", "1000", "0", inode, "1",
    "0", "100", "0", "0", "10", "0"].flatMap fun word => ' ' :: word.toList

/-- Two sockets listen at the first address, and none at the second. -/
def sharedTable : List Char :=
  " sl  local_address ".toList ++ '\n' :: socksRow "0:" "100" ++ '\n' :: socksRow "1:" "101" ++ ['\n']

def sharedFds : Descriptors :=
  some [some "/dev/null".toList, none, some "socket:[100]".toList, some "socket:[101]".toList]

end Sample

theorem child_owns_listeners_shared : ¬ ∀ (order : ByteOrder) (table : List Char) (fds : Descriptors)
    (first second : SocketAddr),
    first.IsV4 → second.IsV4 → first ≠ second →
      (childOwnsListeners order (.ok table) (.ok fds) first second = .ok true ↔
        OwnsBoth order table fds first second) := by
  intro h
  have htrue : childOwnsListeners .little (.ok Sample.sharedTable) (.ok Sample.sharedFds) Sample.socksAddr
      Sample.httpAddr = .ok true := by
    decide +kernel
  have howns := (h .little Sample.sharedTable Sample.sharedFds Sample.socksAddr Sample.httpAddr
    ⟨_, _, _, _, rfl⟩ ⟨_, _, _, _, rfl⟩ (by decide)).mp htrue
  have hnone : ∀ line ∈ (textLines Sample.sharedTable).drop 1,
      (splitWhitespace line)[1]? ≠ some (kernelAddress .little 127 0 0 1 1081) := by decide +kernel
  obtain ⟨inode, a, b, c, d, hip, line, hline, -, -, hkey, -⟩ := howns.other
  cases hip
  exact hnone line hline hkey

theorem child_owns_listeners_unheld :
    childOwnsListeners .little (.ok Sample.sharedTable) (.ok (some [])) Sample.socksAddr Sample.httpAddr = .ok true ↔
      OwnsBoth .little Sample.sharedTable (some []) Sample.socksAddr Sample.httpAddr := by
  apply (child_owns_listeners_iff .little Sample.sharedTable (some []) Sample.socksAddr Sample.httpAddr ⟨_, _, _, _, rfl⟩
    ⟨_, _, _, _, rfl⟩ (by decide)).1.mpr
  left
  refine ⟨"100".toList, .inl ⟨_, _, _, _, rfl, Sample.socksRow "0:" "100", ?_, ?_, ?_, ?_, ?_⟩, ?_⟩
  · decide +kernel
  · decide +kernel
  · decide +kernel
  · decide +kernel
  · decide +kernel
  · intro ⟨targets, htargets, hmem⟩
    cases htargets
    cases hmem

end Causeway
