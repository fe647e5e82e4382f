import Causeway.Model.Wire
import Mathlib.Data.List.Flatten

/-!
# Where a reader stops

A status line is read in whole reads, and what its last read brings beyond the line is dropped. So what is left for the next reader depends on where the reads end: `remainder` is that dependence, in lengths only. The write-through probe and the site probe go on with what is left.
-/

namespace Causeway

/-! ### Streams and their splits -/

/-- The stream arrives in these reads. -/
structure Split (cap : Nat) (stream : Bytes) (reads : List Bytes) : Prop where
  flatten : reads.flatten = stream
  sized : ∀ chunk ∈ reads, chunk ≠ [] ∧ chunk.length ≤ cap

section

variable {cap : Nat} {stream other : Bytes} {reads others : List Bytes}

theorem Split.nil : Split cap [] [] := ⟨rfl, by simp⟩

theorem Split.append (h : Split cap stream reads) (g : Split cap other others) :
    Split cap (stream ++ other) (reads ++ others) := by
  refine ⟨by rw [List.flatten_append, h.flatten, g.flatten], fun chunk hchunk => ?_⟩
  rcases List.mem_append.mp hchunk with hchunk | hchunk
  · exact h.sized chunk hchunk
  · exact g.sized chunk hchunk

theorem Split.single (hne : stream ≠ []) (hcap : stream.length ≤ cap) : Split cap stream [stream] :=
  ⟨by simp, by simp [hne, hcap]⟩

theorem Split.ne_nil_iff (h : Split cap stream reads) : reads ≠ [] ↔ 0 < stream.length := by
  rw [List.length_pos_iff, ← h.flatten]
  cases reads with
  | nil => simp
  | cons chunk reads =>
      have hchunk := (h.sized chunk (by simp)).1
      simp [hchunk]

/-- Every stream can arrive in such reads, for instance byte by byte. -/
theorem Split.exists (hcap : 0 < cap) (stream : Bytes) : ∃ reads, Split cap stream reads := by
  induction stream with
  | nil => exact ⟨[], .nil⟩
  | cons byte stream ih =>
      obtain ⟨reads, h⟩ := ih
      exact ⟨[byte] :: reads, (Split.single (List.cons_ne_nil byte []) hcap).append h⟩

end

/-! ### The line -/

section

variable {a b : Bytes} {pos : Nat}

theorem findCrlf_cons (x : UInt8) (l : Bytes) :
    findCrlf (x :: l) = if x = 13 ∧ l.head? = some 10 then some 0 else (findCrlf l).map (· + 1) := by
  rw [findCrlf.eq_def]
  split
  · rename_i rest heq
    cases heq
    simp
  · rename_i x' l' hne heq
    cases heq
    rw [if_neg]
    rintro ⟨rfl, hhead⟩
    cases l with
    | nil => cases hhead
    | cons y l =>
        cases hhead
        exact hne l rfl rfl
  · rename_i heq
    cases heq

theorem findCrlf_append (h : findCrlf a = some pos) : findCrlf (a ++ b) = some pos := by
  induction a generalizing pos with
  | nil => cases h
  | cons x a ih =>
      rw [findCrlf_cons] at h
      rw [List.cons_append, findCrlf_cons]
      split at h
      · rename_i hx
        have hhead : (a ++ b).head? = some 10 := by
          rw [List.head?_append, hx.2]
          rfl
        rw [if_pos ⟨hx.1, hhead⟩]
        exact h
      · rename_i hx
        obtain ⟨q, hq, rfl⟩ := Option.map_eq_some_iff.mp h
        rw [ih hq, if_neg]
        · rfl
        · rintro ⟨rfl, hhead⟩
          cases a with
          | nil => cases hq
          | cons y a => exact hx ⟨rfl, hhead⟩

theorem findCrlf_bound (h : findCrlf a = some pos) : pos + 2 ≤ a.length := by
  induction a generalizing pos with
  | nil => cases h
  | cons x a ih =>
      rw [findCrlf_cons] at h
      split at h
      · rename_i hx
        cases h
        cases a with
        | nil => cases hx.2
        | cons y a => simp
      · obtain ⟨q, hq, rfl⟩ := Option.map_eq_some_iff.mp h
        have := ih hq
        simp
        omega

/-- The line is found as soon as it is there. -/
theorem findCrlf_prefix (h : findCrlf (a ++ b) = some pos) :
    findCrlf a = if pos + 2 ≤ a.length then some pos else none := by
  cases ha : findCrlf a with
  | some q =>
      have hsame := @findCrlf_append a b q ha
      rw [h] at hsame
      cases hsame
      rw [if_pos (findCrlf_bound ha)]
  | none =>
      rw [if_neg]
      intro hle
      induction a generalizing pos with
      | nil => simp at hle
      | cons x a ih =>
          rw [findCrlf_cons] at ha
          rw [List.cons_append, findCrlf_cons] at h
          split at ha
          · cases ha
          · rename_i hx
            split at h
            · rename_i hx'
              cases h
              cases a with
              | nil => simp at hle
              | cons y a => exact hx hx'
            · obtain ⟨q, hq, rfl⟩ := Option.map_eq_some_iff.mp h
              refine ih hq (by simpa using ha) ?_
              simp at hle
              omega

end

/-! ### What is left -/

/-- The reads that are left once a line of `p` bytes is there; nothing if the cap is passed before. -/
def remainder (p : Nat) : Nat → List Bytes → Option (List Bytes)
  | _, [] => none
  | seen, chunk :: reads =>
      if p ≤ seen + chunk.length then some reads
      else if statusLineCap < seen + chunk.length then none
      else remainder p (seen + chunk.length) reads

section

variable {errors : ReadErrors} {buf stream : Bytes} {reads rest first : List Bytes} {pos p seen cap : Nat}

/-- The reader depends on the lengths of its reads only. -/
theorem readLine_eq (h : findCrlf (buf ++ reads.flatten) = some pos) (hbuf : buf.length < pos + 2) :
    readLine errors buf reads =
      match remainder (pos + 2) buf.length reads with
      | some rest => .ok ((buf ++ reads.flatten).take pos, rest)
      | none => .error errors.tooLong := by
  induction reads generalizing buf with
  | nil =>
      have hle := findCrlf_bound h
      simp at hle
      omega
  | cons chunk reads ih =>
      rw [List.flatten_cons, ← List.append_assoc] at h ⊢
      rw [readLine, remainder, findCrlf_prefix h, List.length_append]
      by_cases hfound : pos + 2 ≤ buf.length + chunk.length
      · rw [if_pos hfound, if_pos hfound, List.take_append_of_le_length (by rw [List.length_append]; omega)]
      · rw [if_neg hfound, if_neg hfound]
        by_cases hlong : statusLineCap < buf.length + chunk.length
        · rw [if_pos hlong, if_pos hlong]
        · rw [if_neg hlong, if_neg hlong]
          have hrest := ih h (by rw [List.length_append]; omega)
          rw [List.length_append] at hrest
          exact hrest

theorem readLine_none (h : findCrlf (buf ++ reads.flatten) = none) : ∃ error, readLine errors buf reads = .error error := by
  induction reads generalizing buf with
  | nil => exact ⟨errors.closed, rfl⟩
  | cons chunk reads ih =>
      rw [List.flatten_cons, ← List.append_assoc] at h
      have hchunk : findCrlf (buf ++ chunk) = none := by
        cases hfound : findCrlf (buf ++ chunk) with
        | none => rfl
        | some pos =>
            rw [findCrlf_append hfound] at h
            cases h
      rw [readLine, hchunk]
      by_cases hlong : (buf ++ chunk).length > statusLineCap
      · exact ⟨errors.tooLong, if_pos hlong⟩
      · obtain ⟨error, herror⟩ := ih h
        exact ⟨error, (if_neg hlong).trans herror⟩

/-- Where the reader has stopped. -/
theorem remainder_some (h : remainder p seen reads = some rest) (hseen : seen < p)
    (hsized : ∀ chunk ∈ reads, chunk ≠ [] ∧ chunk.length ≤ cap) :
    ∃ taken, reads.flatten.length = taken + rest.flatten.length ∧ p ≤ seen + taken ∧ seen + taken < p + cap ∧
      ∀ chunk ∈ rest, chunk ≠ [] := by
  induction reads generalizing seen with
  | nil => cases h
  | cons chunk reads ih =>
      obtain ⟨hchunk, hrest⟩ := List.forall_mem_cons.mp hsized
      rw [remainder] at h
      split at h
      · cases h
        exact ⟨chunk.length, by simp, ‹_›, by omega, fun other hother => (hrest other hother).1⟩
      · split at h
        · cases h
        · obtain ⟨taken, hlength, hle, hlt, hne⟩ := ih h (by omega) hrest
          refine ⟨chunk.length + taken, ?_, by omega, by omega, hne⟩
          rw [List.flatten_cons, List.length_append]
          omega

/-- A line within the cap is always read. -/
theorem remainder_isSome (hp : p ≤ statusLineCap + 1) (hseen : seen < p) (hstream : p ≤ seen + reads.flatten.length) :
    (remainder p seen reads).isSome = true := by
  induction reads generalizing seen with
  | nil =>
      simp at hstream
      omega
  | cons chunk reads ih =>
      rw [List.flatten_cons, List.length_append] at hstream
      rw [remainder]
      split
      · rfl
      · rw [if_neg (by omega)]
        exact ih (by omega) (by omega)

/-- A line that is too long for the cap and one more read is never read. -/
theorem remainder_none (hp : statusLineCap + cap < p) (hseen : seen ≤ statusLineCap)
    (hsized : ∀ chunk ∈ reads, chunk ≠ [] ∧ chunk.length ≤ cap) : remainder p seen reads = none := by
  induction reads generalizing seen with
  | nil => rfl
  | cons chunk reads ih =>
      obtain ⟨hchunk, hrest⟩ := List.forall_mem_cons.mp hsized
      rw [remainder, if_neg (by omega)]
      split
      · rfl
      · exact ih (by omega) hrest

/-- Reads that neither complete the line nor pass the cap. -/
theorem remainder_append (hp : seen + first.flatten.length < p) (hcap : seen + first.flatten.length ≤ statusLineCap) :
    remainder p seen (first ++ reads) = remainder p (seen + first.flatten.length) reads := by
  induction first generalizing seen with
  | nil => simp
  | cons chunk first ih =>
      rw [List.flatten_cons, List.length_append] at hp hcap ⊢
      rw [List.cons_append, remainder, if_neg (by omega), if_neg (by omega), ih (by omega) (by omega), Nat.add_assoc]

end

/-! ### The write-through probe -/

/-- The length of the status line with its CR LF, and the code it carries. -/
def answered (stream : Bytes) : Option (Nat × Nat) :=
  (findCrlf stream).bind fun pos => (statusCode (stream.take pos)).toOption.map fun code => (pos + 2, code)

/-- The length of a response head with its blank line. -/
def headLength : Bytes → Option Nat
  | 13 :: 10 :: 13 :: 10 :: _ => some 4
  | _ :: bytes => (headLength bytes).map (· + 1)
  | [] => none

def PastHead (stream : Bytes) : Prop := ∃ length, headLength stream = some length ∧ length < stream.length

/-- What a 2xx of the probe promises, and that every split of the stream gets one verdict. -/
structure WriteThrough (stream : Bytes) : Prop where
  sound : ∀ url outside reads, Split readSize stream reads → ∀ code, connectStatusTimed url outside reads = .ok code →
    200 ≤ code → code < 300 → (∃ p, answered stream = some (p, code)) ∧ PastHead stream
  steady : ∀ url outside reads others, Split readSize stream reads → Split readSize stream others →
    (connectStatusTimed url outside reads).toOption = (connectStatusTimed url outside others).toOption

/-- A line of `p` bytes with this code is no surprise: it is too long however it is read; or it is within the cap and its code is no 2xx; or the stream ends with it; or it is within the cap, and the stream goes on past the head and past every read that the line may end in. -/
structure Settled (p code : Nat) (stream : Bytes) : Prop where
  cases : statusLineCap + readSize < p ∨
    (¬ (200 ≤ code ∧ code < 300) ∧ p ≤ statusLineCap + 1) ∨
    ((200 ≤ code ∧ code < 300) ∧ stream.length = p) ∨
    ((200 ≤ code ∧ code < 300) ∧ p ≤ statusLineCap + 1 ∧ p + readSize ≤ stream.length ∧ PastHead stream)

def verdict (outside : Surroundings) (code : Nat) : Option (List Bytes) → Option Nat
  | none => none
  | some rest =>
      if 200 ≤ code ∧ code < 300 then if outside.probeSent = true ∧ rest ≠ [] then some code else none else some code

section

variable {url : String} {outside : Surroundings} {stream : Bytes} {reads others : List Bytes} {p code : Nat}

theorem readStatusLine_unanswered (hanswer : answered stream = none) (hreads : reads.flatten = stream) :
    ∃ error, readStatusLine reads = .error error := by
  unfold answered at hanswer
  unfold readStatusLine
  cases hline : findCrlf stream with
  | none =>
      obtain ⟨error, herror⟩ := @readLine_none healthReadErrors [] reads (by rw [List.nil_append, hreads, hline])
      exact ⟨error, by rw [herror]; rfl⟩
  | some pos =>
      rw [hline, Option.bind_some, Option.map_eq_none_iff] at hanswer
      have hread := @readLine_eq healthReadErrors [] reads pos (by rw [List.nil_append, hreads, hline]) (by simp)
      rw [List.nil_append, hreads] at hread
      rw [hread]
      cases hcode : statusCode (stream.take pos) with
      | ok code => simp [hcode, Except.toOption] at hanswer
      | error error =>
          cases remainder (pos + 2) ([] : Bytes).length reads with
          | none => exact ⟨_, rfl⟩
          | some rest =>
              refine ⟨error, ?_⟩
              show (statusCode (stream.take pos) >>= fun code => pure (code, rest)) = .error error
              rw [hcode]
              rfl

theorem answered_eq_some_iff : answered stream = some (p, code) ↔
    ∃ pos, findCrlf stream = some pos ∧ p = pos + 2 ∧ statusCode (stream.take pos) = .ok code := by
  unfold answered
  constructor
  · intro h
    obtain ⟨pos, hline, h⟩ := Option.bind_eq_some_iff.mp h
    obtain ⟨found, hfound, heq⟩ := Option.map_eq_some_iff.mp h
    cases heq
    refine ⟨pos, hline, rfl, ?_⟩
    cases hcode : statusCode (stream.take pos) with
    | ok value => simpa [hcode, Except.toOption] using hfound
    | error error => simp [hcode, Except.toOption] at hfound
  · rintro ⟨pos, hline, rfl, hcode⟩
    rw [hline, Option.bind_some, hcode]
    rfl

theorem readStatusLine_answered (hanswer : answered stream = some (p, code)) (hreads : reads.flatten = stream) :
    readStatusLine reads =
      match remainder p 0 reads with
      | some rest => .ok (code, rest)
      | none => .error healthReadErrors.tooLong := by
  obtain ⟨pos, hline, rfl, hcode⟩ := answered_eq_some_iff.mp hanswer
  have hread := @readLine_eq healthReadErrors [] reads pos (by rw [List.nil_append, hreads, hline]) (by simp)
  rw [List.nil_append, hreads, List.length_nil] at hread
  unfold readStatusLine
  rw [hread]
  cases remainder (pos + 2) 0 reads with
  | none => rfl
  | some rest =>
      show (statusCode (stream.take pos) >>= fun code => pure (code, rest)) = .ok (code, rest)
      rw [hcode]
      rfl

/-- A target that is accepted, and a proxy that takes what is sent to it up to the probe. -/
structure Dialled (url : String) (outside : Surroundings) : Prop where
  target : ∃ authority, splitConnectTarget url = .ok authority
  connected : outside.connected = true
  requestSent : outside.requestSent = true

theorem connectStatusTimed_undialled (h : ¬ Dialled url outside) : (connectStatusTimed url outside reads).toOption = none := by
  unfold connectStatusTimed
  cases htarget : splitConnectTarget url with
  | error error => rfl
  | ok authority =>
      cases hconnected : outside.connected with
      | false => rfl
      | true =>
          cases hsent : outside.requestSent with
          | false => rfl
          | true => exact absurd ⟨⟨authority, htarget⟩, hconnected, hsent⟩ h

theorem connectStatusTimed_dialled (h : Dialled url outside) : connectStatusTimed url outside reads =
    (readStatusLine reads >>= fun (code, reads) => do
      if 200 ≤ code && code < 300 then
        if !outside.probeSent then throw outside.detail
        if reads.isEmpty then
          throw "tunnel closed before the write-through probe answered (remote reset or failed dial)"
      return code) := by
  obtain ⟨⟨authority, htarget⟩, hconnected, hsent⟩ := h
  unfold connectStatusTimed
  rw [htarget, hconnected, hsent]
  rfl

theorem connectStatusTimed_unanswered (hanswer : answered stream = none) (hreads : reads.flatten = stream) :
    (connectStatusTimed url outside reads).toOption = none := by
  by_cases h : Dialled url outside
  · obtain ⟨error, herror⟩ := readStatusLine_unanswered hanswer hreads
    rw [connectStatusTimed_dialled h, herror]
    rfl
  · exact connectStatusTimed_undialled h

theorem connectStatusTimed_answered (h : Dialled url outside) (hanswer : answered stream = some (p, code))
    (hreads : reads.flatten = stream) :
    (connectStatusTimed url outside reads).toOption = verdict outside code (remainder p 0 reads) := by
  rw [connectStatusTimed_dialled h, readStatusLine_answered hanswer hreads]
  cases remainder p 0 reads with
  | none => rfl
  | some rest =>
      by_cases hcode : 200 ≤ code ∧ code < 300
      · have hcode' : (200 ≤ code && code < 300) = true := by simp [hcode]
        have hverdict : verdict outside code (some rest) = if outside.probeSent = true ∧ rest ≠ [] then some code else none :=
          if_pos hcode
        rw [hverdict]
        simp only [bind, Except.bind, hcode', if_true]
        cases outside.probeSent with
        | false => rfl
        | true => cases rest <;> rfl
      · have hcode' : (200 ≤ code && code < 300) = false := by simpa using hcode
        have hverdict : verdict outside code (some rest) = some code := if_neg hcode
        rw [hverdict]
        simp only [bind, Except.bind, hcode']
        rfl

theorem Split.remainder (h : Split readSize stream reads) (hp : 0 < p) (hrest : remainder p 0 reads = some others) :
    ∃ taken, stream.length = taken + others.flatten.length ∧ p ≤ taken ∧ taken < p + readSize := by
  obtain ⟨taken, hlength, hle, hlt, _⟩ := remainder_some hrest hp h.sized
  rw [h.flatten] at hlength
  exact ⟨taken, hlength, by omega, by omega⟩

/-- A stream can arrive with a read of its own from any byte to any of the next ones. -/
theorem Split.cut {n m : Nat} (hn : n ≤ statusLineCap) (hp : n < p) (hnm : n < m) (hm : m ≤ n + readSize)
    (hlength : m ≤ stream.length) :
    ∃ reads rest, Split readSize stream reads ∧ Split readSize (stream.drop m) rest ∧
      Causeway.remainder p 0 reads =
        if p ≤ m then some rest else if statusLineCap < m then none else Causeway.remainder p m rest := by
  obtain ⟨first, hfirst⟩ := Split.exists (by decide : 0 < readSize) (stream.take n)
  obtain ⟨rest, hrest⟩ := Split.exists (by decide : 0 < readSize) (stream.drop m)
  have hmiddle : ((stream.drop n).take (m - n)).length = m - n := by
    rw [List.length_take, List.length_drop]
    omega
  have hone : Split readSize ((stream.drop n).take (m - n)) [(stream.drop n).take (m - n)] := by
    apply Split.single
    · intro hnil
      rw [hnil] at hmiddle
      simp at hmiddle
      omega
    · omega
  have hall := (hfirst.append hone).append hrest
  have hseen : first.flatten.length = n := by
    rw [hfirst.flatten, List.length_take]
    omega
  have hstream : stream.take n ++ (stream.drop n).take (m - n) ++ stream.drop m = stream := by
    have hdrop : stream.drop m = (stream.drop n).drop (m - n) := by
      rw [List.drop_drop]
      congr 1
      omega
    rw [hdrop, List.append_assoc, List.take_append_drop, List.take_append_drop]
  rw [hstream] at hall
  refine ⟨_, rest, hall, hrest, ?_⟩
  rw [List.append_assoc, remainder_append (by omega) (by omega), hseen, List.singleton_append, Causeway.remainder, hmiddle]
  simp only [Nat.zero_add, Nat.add_sub_cancel' hnm.le]

/-- The probe is sent through the tunnel. -/
def smooth : Surroundings where
  connected := true
  requestSent := true
  probeSent := true
  detail := ""

theorem smooth_dialled : Dialled "connect://h" smooth := ⟨⟨"h:443", by decide +kernel⟩, rfl, rfl⟩

/-- The probe says yes, when the read that ends the line ends at this byte. -/
def Heard (p code : Nat) (stream : Bytes) (m : Nat) : Prop :=
  p ≤ m ∧ (¬ (200 ≤ code ∧ code < 300) ∨ m < stream.length)

instance (m : Nat) : Decidable (Heard p code stream m) :=
  inferInstanceAs (Decidable (p ≤ m ∧ (¬ (200 ≤ code ∧ code < 300) ∨ m < stream.length)))

/-- A read of its own decides what the probe says. -/
theorem smooth_cut (hanswer : answered stream = some (p, code)) {n m : Nat} (hn : n ≤ statusLineCap) (hp : n < p) (hnm : n < m)
    (hm : m ≤ n + readSize) (hlength : m ≤ stream.length) (hdone : p ≤ m ∨ statusLineCap < m) :
    ∃ reads, Split readSize stream reads ∧ (connectStatusTimed "connect://h" smooth reads).toOption =
      if Heard p code stream m then some code else none := by
  obtain ⟨reads, rest, hreads, hrest, hremainder⟩ := Split.cut hn hp hnm hm hlength
  refine ⟨reads, hreads, ?_⟩
  rw [connectStatusTimed_answered smooth_dialled hanswer hreads.flatten, hremainder]
  by_cases hpm : p ≤ m
  · have hverdict : verdict smooth code (some rest) =
        if 200 ≤ code ∧ code < 300 then if smooth.probeSent = true ∧ rest ≠ [] then some code else none else some code := rfl
    have hleft := hrest.ne_nil_iff
    rw [List.length_drop] at hleft
    rw [if_pos hpm, hverdict]
    by_cases hcode : 200 ≤ code ∧ code < 300
    · rw [if_pos hcode]
      simp only [Heard, hpm, hcode, smooth, hleft, true_and, not_true, false_or]
      split <;> split <;> first | rfl | omega
    · rw [if_neg hcode, if_pos ⟨hpm, Or.inl hcode⟩]
  · rw [if_neg hpm, if_pos (hdone.resolve_left hpm), if_neg (fun h => hpm h.1)]
    rfl

theorem WriteThrough.of_unanswered (hanswer : answered stream = none) : WriteThrough stream where
  sound := fun url outside reads hreads code hok => by
    have hnone := @connectStatusTimed_unanswered url outside _ _ hanswer hreads.flatten
    rw [hok] at hnone
    cases hnone
  steady := fun url outside reads others hreads hothers => by
    rw [connectStatusTimed_unanswered hanswer hreads.flatten, connectStatusTimed_unanswered hanswer hothers.flatten]

/-- One verdict for every split that reaches the line, and a 2xx only past the head. -/
theorem WriteThrough.of_verdict {verdicts : Surroundings → Option Nat} (hanswer : answered stream = some (p, code))
    (hverdict : ∀ outside reads, Split readSize stream reads → verdict outside code (remainder p 0 reads) = verdicts outside)
    (hpast : ∀ outside, 200 ≤ code → code < 300 → (verdicts outside).isSome = true → PastHead stream) : WriteThrough stream where
  sound := fun url outside reads hreads found hok hle hlt => by
    have hdialled : Dialled url outside := by
      by_contra h
      have hnone := @connectStatusTimed_undialled url outside reads h
      rw [hok] at hnone
      cases hnone
    have hfound := connectStatusTimed_answered hdialled hanswer hreads.flatten
    rw [hok, hverdict outside reads hreads] at hfound
    have hsame : found = code := by
      have hcode := hverdict outside reads hreads
      rw [← hfound] at hcode
      unfold verdict at hcode
      split at hcode
      · cases hcode
      · split at hcode
        · split at hcode <;> cases hcode
          rfl
        · cases hcode
          rfl
    subst hsame
    exact ⟨⟨p, hanswer⟩, hpast outside hle hlt (by rw [← hfound]; rfl)⟩
  steady := fun url outside reads others hreads hothers => by
    by_cases h : Dialled url outside
    · rw [connectStatusTimed_answered h hanswer hreads.flatten, connectStatusTimed_answered h hanswer hothers.flatten,
        hverdict outside reads hreads, hverdict outside others hothers]
    · rw [connectStatusTimed_undialled h, connectStatusTimed_undialled h]

theorem answered_bound (hanswer : answered stream = some (p, code)) : 2 ≤ p ∧ p ≤ stream.length := by
  obtain ⟨pos, hline, rfl, _⟩ := answered_eq_some_iff.mp hanswer
  exact ⟨by omega, findCrlf_bound hline⟩

theorem WriteThrough.of_settled (hanswer : answered stream = some (p, code)) (h : Settled p code stream) : WriteThrough stream := by
  have hbound := answered_bound hanswer
  rcases h.cases with hlong | ⟨hcode, hp⟩ | ⟨hcode, hends⟩ | ⟨hcode, hp, hfar, hpast⟩
  · apply @WriteThrough.of_verdict _ _ _ (fun _ => none) hanswer
    · intro outside reads hreads
      rw [remainder_none hlong (Nat.zero_le statusLineCap) hreads.sized]
      rfl
    · intro outside _ _ hsome
      cases hsome
  · apply @WriteThrough.of_verdict _ _ _ (fun _ => some code) hanswer
    · intro outside reads hreads
      obtain ⟨rest, hrest⟩ := Option.isSome_iff_exists.mp
        (@remainder_isSome reads p 0 hp (by omega) (by rw [hreads.flatten]; omega))
      rw [hrest]
      exact if_neg hcode
    · intro outside hle hlt _
      exact absurd ⟨hle, hlt⟩ hcode
  · apply @WriteThrough.of_verdict _ _ _ (fun _ => none) hanswer
    · intro outside reads hreads
      cases hrest : remainder p 0 reads with
      | none => rfl
      | some rest =>
          obtain ⟨taken, hlength, hle, _, hne⟩ := remainder_some hrest (show 0 < p by omega) hreads.sized
          rw [hreads.flatten] at hlength
          have hnil : rest = [] := by
            cases rest with
            | nil => rfl
            | cons chunk rest =>
                have hchunk := List.length_pos_iff.mpr (hne chunk (by simp))
                rw [List.flatten_cons, List.length_append] at hlength
                omega
          subst hnil
          show (if 200 ≤ code ∧ code < 300 then if outside.probeSent = true ∧ ([] : List Bytes) ≠ [] then some code else none
            else some code) = none
          simp [hcode]
    · intro outside _ _ hsome
      cases hsome
  · apply @WriteThrough.of_verdict _ _ _ (fun outside => if outside.probeSent = true then some code else none) hanswer
    · intro outside reads hreads
      obtain ⟨rest, hrest⟩ := Option.isSome_iff_exists.mp
        (@remainder_isSome reads p 0 hp (by omega) (by rw [hreads.flatten]; omega))
      obtain ⟨taken, hlength, _, hlt, _⟩ := remainder_some hrest (show 0 < p by omega) hreads.sized
      rw [hreads.flatten] at hlength
      have hne : rest ≠ [] := by
        rintro rfl
        simp at hlength
        omega
      rw [hrest]
      show (if 200 ≤ code ∧ code < 300 then if outside.probeSent = true ∧ rest ≠ [] then some code else none
        else some code) = _
      simp [hcode, hne]
    · intro _ _ _ _
      exact hpast

/-- Steady verdicts are the same wherever the read ends. -/
theorem WriteThrough.heard (h : WriteThrough stream) (hanswer : answered stream = some (p, code)) {n m n' m' : Nat}
    (hn : n ≤ statusLineCap) (hp : n < p) (hnm : n < m) (hm : m ≤ n + readSize) (hl : m ≤ stream.length)
    (hd : p ≤ m ∨ statusLineCap < m) (hn' : n' ≤ statusLineCap) (hp' : n' < p) (hnm' : n' < m') (hm' : m' ≤ n' + readSize)
    (hl' : m' ≤ stream.length) (hd' : p ≤ m' ∨ statusLineCap < m') : Heard p code stream m ↔ Heard p code stream m' := by
  obtain ⟨reads, hreads, hok⟩ := smooth_cut hanswer hn hp hnm hm hl hd
  obtain ⟨others, hothers, hok'⟩ := smooth_cut hanswer hn' hp' hnm' hm' hl' hd'
  have hsame := h.steady "connect://h" smooth reads others hreads hothers
  rw [hok, hok'] at hsame
  constructor
  · intro hheard
    by_contra hnot
    rw [if_pos hheard, if_neg hnot] at hsame
    cases hsame
  · intro hheard
    by_contra hnot
    rw [if_pos hheard, if_neg hnot] at hsame
    cases hsame

theorem Settled.of_writeThrough (hanswer : answered stream = some (p, code)) (h : WriteThrough stream) : Settled p code stream := by
  have hbound := answered_bound hanswer
  have hcap : statusLineCap = 8192 := rfl
  have hsize : readSize = 512 := rfl
  constructor
  by_cases hlong : statusLineCap + readSize < p
  · exact Or.inl hlong
  apply Or.inr
  by_cases hp : p ≤ statusLineCap + 1
  · by_cases hcode : 200 ≤ code ∧ code < 300
    · apply Or.inr
      by_cases hends : stream.length = p
      · exact Or.inl ⟨hcode, hends⟩
      -- a read that ends with the line leaves a byte for the probe
      have hline : Heard p code stream p := ⟨Nat.le_refl p, Or.inr (by omega)⟩
      obtain ⟨reads, hreads, hok⟩ := smooth_cut hanswer (show p - 1 ≤ statusLineCap by omega) (by omega)
        (show p - 1 < p by omega) (by omega) hbound.2 (Or.inl (Nat.le_refl p))
      rw [if_pos hline] at hok
      have hok' : connectStatusTimed "connect://h" smooth reads = .ok code := by
        cases hresult : connectStatusTimed "connect://h" smooth reads with
        | ok found =>
            rw [hresult] at hok
            cases hok
            rfl
        | error error =>
            rw [hresult] at hok
            cases hok
      have hpast := (h.sound "connect://h" smooth reads hreads code hok' hcode.1 hcode.2).2
      refine Or.inr ⟨hcode, hp, ?_, hpast⟩
      by_contra hnear
      -- a read that ends with the stream leaves none
      have hend := (h.heard hanswer (show p - 1 ≤ statusLineCap by omega) (by omega) (show p - 1 < p by omega) (by omega)
        hbound.2 (Or.inl (Nat.le_refl p)) (show p - 1 ≤ statusLineCap by omega) (by omega)
        (show p - 1 < stream.length by omega) (by omega) (Nat.le_refl _) (Or.inl hbound.2)).mp hline
      exact hend.2.elim (fun hno => hno hcode) (Nat.lt_irrefl _)
    · exact Or.inl ⟨hcode, hp⟩
  · by_cases hends : (200 ≤ code ∧ code < 300) ∧ stream.length = p
    · exact Or.inr (Or.inl hends)
    -- between the cap and the cap with one more read, the line is read or given up
    have hline : Heard p code stream p := by
      refine ⟨Nat.le_refl p, ?_⟩
      by_cases hcode : 200 ≤ code ∧ code < 300
      · exact Or.inr (by have hne := fun heq => hends ⟨hcode, heq⟩; omega)
      · exact Or.inl hcode
    have hgiven := (h.heard hanswer (Nat.le_refl statusLineCap) (by omega) (show statusLineCap < p by omega) (by omega)
      hbound.2 (Or.inl (Nat.le_refl p)) (Nat.le_refl statusLineCap) (by omega)
      (show statusLineCap < statusLineCap + 1 by omega) (by omega) (by omega) (Or.inr (by omega))).mp hline
    exact absurd hgiven.1 hp

/-- When the write-through probe keeps its promise: never by its head, only by lengths. -/
theorem write_through_iff (stream : Bytes) :
    WriteThrough stream ↔ ∀ p code, answered stream = some (p, code) → Settled p code stream := by
  constructor
  · intro h p code hanswer
    exact Settled.of_writeThrough hanswer h
  · intro h
    cases hanswer : answered stream with
    | none => exact WriteThrough.of_unanswered hanswer
    | some answer => exact WriteThrough.of_settled hanswer (h answer.1 answer.2 hanswer)

end

namespace Sample

def bytes (text : String) : Bytes := text.toList.map fun c => UInt8.ofNat c.toNat

def statusLine : Bytes := bytes "HTTP/1.1 200 OK\r\n"

def crlf : Bytes := bytes "\r\n"

end Sample

/-- The blank line of the head, when it comes in a read of its own, is an answer to the probe. -/
theorem write_through_head : ¬ ∀ stream, WriteThrough stream := by
  intro h
  have hreads : Split readSize (Sample.statusLine ++ Sample.crlf) [Sample.statusLine, Sample.crlf] :=
    ⟨by decide +kernel, by decide +kernel⟩
  have hok : connectStatusTimed "connect://h" smooth [Sample.statusLine, Sample.crlf] = .ok 200 := by decide +kernel
  obtain ⟨_, length, hhead, hlt⟩ := (h _).sound "connect://h" smooth _ hreads 200 hok (by decide) (by decide)
  have hlength : headLength (Sample.statusLine ++ Sample.crlf) = some 19 := by decide +kernel
  rw [hlength] at hhead
  cases hhead
  revert hlt
  decide +kernel

/-! ### The site probe -/

/-- A response head whose status line, with its CR LF, has `p` bytes and carries this code. -/
structure ResponseHead (p code : Nat) (head : Bytes) : Prop where
  line : answered head = some (p, code)
  ends : headLength head = some head.length

/-- While there are bytes, the connection takes some. -/
def TlsConnection.Takes {σ : Type} (tls : TlsConnection σ) : Prop :=
  ∀ s pending consumed s', pending ≠ [] → tls.readTls s pending = some (consumed, s') → 0 < consumed

/-- The tunnel is opened, and what the TLS connection is then handed, as long as it does not fail, is this. -/
def HandsOver (tunnel : Bytes) (reads : List Bytes) : Prop :=
  ∃ left, openTunnel smooth reads = .ok left ∧
    ∀ (σ : Type) (tls : TlsConnection σ) s bytes s', tls.Takes → pullCiphertext tls s left = some (bytes, s') → bytes = tunnel

/-- A connection that takes all it is given. -/
def devour : TlsConnection Unit where
  readTls := fun _ pending => some (pending.length, ())
  processNewPackets := fun _ => some ()

section

variable {σ : Type} {tls : TlsConnection σ} {s s' : σ} {head tunnel stream chunk bytes : Bytes} {reads left : List Bytes}
  {p code rounds : Nat}

theorem feed_cons (byte : UInt8) : feed tls (rounds + 1) s (byte :: chunk) =
    match tls.readTls s (byte :: chunk) with
    | none => none
    | some (consumed, s) =>
        if consumed = 0 then some ([], s)
        else
          match tls.processNewPackets s with
          | none => none
          | some s =>
              (feed tls rounds s ((byte :: chunk).drop consumed)).map fun (bytes, s) =>
                ((byte :: chunk).take consumed ++ bytes, s) := rfl

theorem feed_all (htakes : tls.Takes) (hrounds : chunk.length ≤ rounds) (h : feed tls rounds s chunk = some (bytes, s')) :
    bytes = chunk := by
  induction rounds generalizing s chunk bytes with
  | zero =>
      cases h
      cases chunk with
      | nil => rfl
      | cons byte chunk => simp at hrounds
  | succ rounds ih =>
      cases chunk with
      | nil =>
          cases h
          rfl
      | cons byte chunk =>
          rw [feed_cons] at h
          split at h
          · cases h
          · rename_i consumed s₁ hread
            have hpos := htakes _ _ _ _ (List.cons_ne_nil byte chunk) hread
            rw [if_neg (by omega)] at h
            split at h
            · cases h
            · obtain ⟨⟨more, s₂⟩, hmore, heq⟩ := Option.map_eq_some_iff.mp h
              cases heq
              have hrest := ih (by rw [List.length_drop]; simp at hrounds ⊢; omega) hmore
              rw [hrest, List.take_append_drop]

theorem pullCiphertext_all (htakes : tls.Takes) (h : pullCiphertext tls s left = some (bytes, s')) : bytes = left.flatten := by
  induction left generalizing s bytes with
  | nil =>
      cases h
      rfl
  | cons chunk left ih =>
      rw [pullCiphertext] at h
      split at h
      · cases h
      · rename_i taken s₁ hfeed
        obtain ⟨⟨more, s₂⟩, hmore, heq⟩ := Option.map_eq_some_iff.mp h
        cases heq
        rw [feed_all htakes (Nat.le_refl _) hfeed, ih hmore, List.flatten_cons]

theorem devour_takes : devour.Takes := by
  intro s pending consumed s' hne h
  cases h
  exact List.length_pos_iff.mpr hne

theorem devour_feed : feed devour chunk.length () chunk = some (chunk, ()) := by
  cases chunk with
  | nil => rfl
  | cons byte chunk =>
      have hrest : feed devour chunk.length () [] = some ([], ()) := by cases chunk.length <;> rfl
      rw [List.length_cons, feed_cons]
      simp [devour] at hrest ⊢
      exact ⟨(), hrest⟩

theorem devour_pull : pullCiphertext devour () left = some (left.flatten, ()) := by
  induction left with
  | nil => rfl
  | cons chunk left ih =>
      rw [pullCiphertext, devour_feed]
      simp [ih]

/-- The two readers find the same code in a line. -/
theorem statusCode_eq_ok {line : Bytes} {code : Nat} : statusCode line = .ok code ↔
    ∃ word, (splitWhitespace (fromUtf8Lossy 0 line))[1]? = some word ∧ parseU16 word = some code := by
  unfold statusCode
  cases splitWhitespace (fromUtf8Lossy 0 line) with
  | nil => simp
  | cons version words =>
      cases words with
      | nil => simp
      | cons word words => cases hword : parseU16 word <;> simp [hword]

theorem openTunnel_answered (hanswer : answered stream = some (p, 200)) (hreads : reads.flatten = stream) :
    openTunnel smooth reads =
      match remainder p 0 reads with
      | some rest => .ok rest
      | none => .error siteReadErrors.tooLong := by
  obtain ⟨pos, hline, hcode⟩ := answered_eq_some_iff.mp hanswer
  obtain ⟨word, hword, hparse⟩ := statusCode_eq_ok.mp hcode.2
  have hread := @readLine_eq siteReadErrors [] reads pos (by rw [List.nil_append, hreads, hline]) (by simp)
  rw [List.nil_append, hreads, List.length_nil, ← hcode.1] at hread
  unfold openTunnel readStatusLineSocket
  rw [hread]
  cases remainder p 0 reads with
  | none => rfl
  | some rest =>
      simp [smooth, bind, Except.bind, hword, hparse, pure, Except.pure]

/-- What is left after the line is what comes after a read that ends it. -/
theorem remainder_eq_some_iff {seen : Nat} (hseen : seen < p) (hcap : seen ≤ statusLineCap) :
    remainder p seen reads = some left ↔ ∃ first last, reads = first ++ last :: left ∧
      seen + first.flatten.length < p ∧ seen + first.flatten.length ≤ statusLineCap ∧
      p ≤ seen + (first ++ [last]).flatten.length := by
  constructor
  · intro h
    induction reads generalizing seen with
    | nil => cases h
    | cons chunk reads ih =>
        rw [remainder] at h
        split at h
        · cases h
          exact ⟨[], chunk, rfl, by simpa using hseen, by simpa using hcap, by simpa⟩
        · split at h
          · cases h
          · obtain ⟨first, last, rfl, hlt, hle, hp⟩ := ih (by omega) (by omega) h
            refine ⟨chunk :: first, last, rfl, ?_, ?_, ?_⟩ <;> simp at hlt hle hp ⊢ <;> omega
  · rintro ⟨first, last, rfl, hlt, hle, hp⟩
    rw [List.flatten_append, List.length_append, List.flatten_singleton] at hp
    rw [remainder_append hlt hle, remainder, if_pos (by omega)]

/-- The status line lies within the head. -/
theorem answered_append (hanswer : answered head = some (p, code)) : answered (head ++ tunnel) = some (p, code) := by
  obtain ⟨pos, hline, rfl, hcode⟩ := answered_eq_some_iff.mp hanswer
  have hbound := findCrlf_bound hline
  apply answered_eq_some_iff.mpr
  exact ⟨pos, findCrlf_append hline, rfl, by rw [List.take_append_of_le_length (by omega), hcode]⟩

end

/-- When the TLS leg starts at the right byte: the read that ends the status line must end the head too. -/
theorem hands_over_iff {head tunnel : Bytes} {p : Nat} {reads : List Bytes} (hhead : ResponseHead p 200 head)
    (hreads : reads.flatten = head ++ tunnel) :
    HandsOver tunnel reads ↔ ∃ first last rest, reads = first ++ last :: rest ∧ (first ++ [last]).flatten = head ∧
      first.flatten.length < p ∧ first.flatten.length ≤ statusLineCap := by
  have hbound := answered_bound hhead.line
  have hopen := openTunnel_answered (answered_append hhead.line) hreads
  constructor
  · rintro ⟨left, hleft, hall⟩
    have hrest : remainder p 0 reads = some left := by
      rw [hopen] at hleft
      cases hremainder : remainder p 0 reads with
      | none =>
          rw [hremainder] at hleft
          cases hleft
      | some rest =>
          rw [hremainder] at hleft
          cases hleft
          rfl
    obtain ⟨first, last, rfl, hlt, hle, -⟩ := (remainder_eq_some_iff (by omega) (Nat.zero_le _)).mp hrest
    have htunnel := hall Unit devour () _ () devour_takes devour_pull
    refine ⟨first, last, left, rfl, ?_, by omega, by omega⟩
    rw [← htunnel, ← List.singleton_append, ← List.append_assoc, List.flatten_append] at hreads
    exact List.append_cancel_right hreads
  · rintro ⟨first, last, rest, rfl, hends, hlt, hle⟩
    have hrest : remainder p 0 (first ++ last :: rest) = some rest :=
      (remainder_eq_some_iff (by omega) (Nat.zero_le _)).mpr ⟨first, last, rfl, by omega, by omega, by rw [hends]; omega⟩
    have htunnel : rest.flatten = tunnel := by
      rw [← List.singleton_append, ← List.append_assoc, List.flatten_append, hends] at hreads
      exact List.append_cancel_left hreads
    refine ⟨rest, by rw [hopen, hrest], ?_⟩
    intro σ tls s bytes s' htakes hpull
    rw [pullCiphertext_all htakes hpull, htunnel]

namespace Sample

def head : Bytes := bytes "HTTP/1.1 200 OK\r\n\r\n"

theorem responseHead : ResponseHead 17 200 head := ⟨by decide +kernel, by decide +kernel⟩

end Sample

/-- A head that comes in one read is not handed over. -/
theorem hands_over_at_once : HandsOver [22, 3, 1] [Sample.head, [22, 3], [1]] :=
  (hands_over_iff Sample.responseHead (by decide +kernel)).mpr
    ⟨[], Sample.head, [[22, 3], [1]], rfl, by decide +kernel, by decide +kernel, by decide +kernel⟩

/-- Tunnel bytes that come with the end of the status line are lost. -/
theorem hands_over_loss : ¬ ∀ head tunnel reads p, ResponseHead p 200 head → reads.flatten = head ++ tunnel →
    (∀ chunk ∈ reads, chunk ≠ []) → HandsOver tunnel reads := by
  intro h
  obtain ⟨left, hleft, hall⟩ := h Sample.head [22, 3, 1] [Sample.head ++ [22, 3], [1]] 17 Sample.responseHead
    (by decide +kernel) (by decide +kernel)
  have hok : openTunnel smooth [Sample.head ++ [22, 3], [1]] = .ok [[1]] := by decide +kernel
  rw [hok] at hleft
  cases hleft
  have htunnel := hall Unit devour () _ () devour_takes devour_pull
  revert htunnel
  decide

end Causeway
