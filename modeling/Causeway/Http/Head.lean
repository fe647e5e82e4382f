import Mathlib.Data.List.DropRight
import Mathlib.Tactic.Common

/-!
# Message heads

A head is its lines and an empty one. It is written with CR LF after every line; a reader ends a line at LF and takes a CR before it for part of the line end. What is written reads back as exactly the same lines if no line has an LF in it.
-/

namespace Http

/-! ### Lines -/

section Lines

variable {line rest text : List Char} {lines : List (List Char)}

/-- A line without the CR of its line end. -/
def endLine (line : List Char) : List Char := if line.getLast? = some '\r' then line.dropLast else line

/-- The lines up to the first empty one, and what comes after that; `line` has been read of the first. -/
def readHead (line : List Char) : List Char → Option (List (List Char) × List Char)
  | [] => none
  | c :: text =>
      if c = '\n' then
        if endLine line = [] then some ([], text) else (readHead [] text).map fun head => (endLine line :: head.1, head.2)
      else readHead (line ++ [c]) text

def render (lines : List (List Char)) : List Char := lines.flatMap (· ++ ['\r', '\n']) ++ ['\r', '\n']

theorem endLine_cr : endLine (line ++ ['\r']) = line := by
  simp [endLine]

theorem mem_endLine {c : Char} (h : c ∈ endLine line) : c ∈ line := by
  unfold endLine at h
  split at h
  · exact List.dropLast_subset line h
  · exact h

theorem readHead_append {more : List Char} (h : '\n' ∉ more) : readHead line (more ++ text) = readHead (line ++ more) text := by
  induction more generalizing line with
  | nil => simp
  | cons c more ih =>
      simp only [List.mem_cons, not_or] at h
      rw [List.cons_append, readHead, if_neg (Ne.symm h.1), ih h.2]
      simp

theorem readHead_line (hline : line ≠ []) (h : '\n' ∉ line) :
    readHead [] (line ++ ['\r', '\n'] ++ text) = (readHead [] text).map fun head => (line :: head.1, head.2) := by
  have hcr : '\n' ∉ line ++ ['\r'] := by simp [h]
  have hsplit : line ++ ['\r', '\n'] ++ text = (line ++ ['\r']) ++ '\n' :: text := by simp
  rw [hsplit, readHead_append hcr, List.nil_append, readHead, if_pos rfl, endLine_cr, if_neg hline]

theorem readHead_end : readHead [] (['\r', '\n'] ++ rest) = some ([], rest) := by
  simp [readHead, endLine]

theorem readHead_render (h : ∀ line ∈ lines, line ≠ [] ∧ '\n' ∉ line) :
    readHead [] (render lines ++ rest) = some (lines, rest) := by
  induction lines with
  | nil => exact readHead_end
  | cons line lines ih =>
      have hline := h line List.mem_cons_self
      have hcons : render (line :: lines) ++ rest = line ++ ['\r', '\n'] ++ (render lines ++ rest) := by simp [render]
      rw [hcons, readHead_line hline.1 hline.2, ih fun line hmem => h line (List.mem_cons_of_mem _ hmem)]
      rfl

/-- No line that is read has a line feed. -/
theorem not_mem_of_readHead (h : readHead line text = some (lines, rest)) (hline : '\n' ∉ line) :
    ∀ line ∈ lines, '\n' ∉ line := by
  induction text generalizing line lines with
  | nil => simp [readHead] at h
  | cons c text ih =>
      rw [readHead] at h
      split at h
      · split at h
        · cases h
          simp
        · obtain ⟨head, hhead, heq⟩ := Option.map_eq_some_iff.mp h
          cases heq
          intro line' hmem
          rcases List.mem_cons.mp hmem with rfl | hmem
          · exact fun hlf => hline (mem_endLine hlf)
          · exact ih hhead (by simp) line' hmem
      · rename_i hc
        exact ih h (by simp [hline, Ne.symm hc])

end Lines

/-! ### Requests -/

structure Header where
  name : List Char
  value : List Char
deriving DecidableEq

structure Request where
  method : List Char
  target : List Char
  version : List Char
  headers : List Header
deriving DecidableEq

def blank (c : Char) : Bool := c = ' ' || c = '\t'

def Header.line (header : Header) : List Char := header.name ++ ':' :: ' ' :: header.value

def Request.line (request : Request) : List Char := request.method ++ ' ' :: request.target ++ ' ' :: request.version

def Request.lines (request : Request) : List (List Char) := request.line :: request.headers.map Header.line

/-- A name ends at the first colon; blanks around the value do not belong to it. -/
def parseHeader (line : List Char) : Option Header :=
  match line.dropWhile (· ≠ ':') with
  | [] => none
  | _ :: value => some ⟨line.takeWhile (· ≠ ':'), (value.dropWhile blank).rdropWhile blank⟩

/-- The method, the target and the version, with one space between any two. -/
def parseRequest (text : List Char) : Option (Request × List Char) := do
  let (lines, rest) ← readHead [] text
  let first ← lines.head?
  match first.splitOnP (· = ' ') with
  | [method, target, version] =>
      let headers ← lines.tail.mapM parseHeader
      return (⟨method, target, version, headers⟩, rest)
  | _ => none

/-- A header that its line gives back. -/
structure Header.WellFormed (header : Header) : Prop where
  name : ∀ c ∈ header.name, c ≠ ':' ∧ c ≠ '\n'
  value : '\n' ∉ header.value
  trimmed : (header.value.dropWhile blank).rdropWhile blank = header.value

/-- A request that its head gives back. -/
structure Request.WellFormed (request : Request) : Prop where
  method : ∀ c ∈ request.method, c ≠ ' ' ∧ c ≠ '\n'
  target : ∀ c ∈ request.target, c ≠ ' ' ∧ c ≠ '\n'
  version : ∀ c ∈ request.version, c ≠ ' ' ∧ c ≠ '\n'
  headers : ∀ header ∈ request.headers, header.WellFormed

section Requests

variable {rest : List Char} {header : Header} {headers : List Header} {request : Request}

theorem parseHeader_line (h : header.WellFormed) : parseHeader header.line = some header := by
  have hname : ∀ c ∈ header.name, decide (c ≠ ':') = true := fun c hc => decide_eq_true (h.name c hc).1
  unfold parseHeader Header.line
  rw [List.dropWhile_append_of_pos hname, List.takeWhile_append_of_pos hname]
  have hvalue : ((' ' :: header.value).dropWhile blank).rdropWhile blank = header.value := by
    rw [List.dropWhile_cons_of_pos (by decide), h.trimmed]
  simp [hvalue]

theorem splitOnP_append {p : Char → Bool} {word : List Char} {c : Char} (hword : ∀ d ∈ word, p d = false) (hc : p c = true) :
    (word ++ c :: rest).splitOnP p = word :: rest.splitOnP p := by
  induction word with
  | nil => simp [List.splitOnP_cons_eq_if_modifyHead, hc]
  | cons d word ih =>
      simp only [List.mem_cons, forall_eq_or_imp] at hword
      rw [List.cons_append, List.splitOnP_cons_eq_if_modifyHead, hword.1, ih hword.2]
      simp

theorem splitOnP_requestLine (h : request.WellFormed) :
    request.line.splitOnP (· = ' ') = [request.method, request.target, request.version] := by
  have hmethod : ∀ c ∈ request.method, decide (c = ' ') = false := fun c hc => decide_eq_false (h.method c hc).1
  have htarget : ∀ c ∈ request.target, decide (c = ' ') = false := fun c hc => decide_eq_false (h.target c hc).1
  have hversion : ∀ c ∈ request.version, decide (c = ' ') = false := fun c hc => decide_eq_false (h.version c hc).1
  rw [Request.line, List.append_assoc, List.cons_append, splitOnP_append hmethod (by decide), splitOnP_append htarget (by decide),
    List.splitOnP_eq_singleton hversion]

theorem mapM_parseHeader (h : ∀ header ∈ headers, header.WellFormed) :
    (headers.map Header.line).mapM parseHeader = some headers := by
  induction headers with
  | nil => rfl
  | cons header headers ih =>
      rw [List.map_cons, List.mapM_cons, parseHeader_line (h header List.mem_cons_self),
        ih fun header hmem => h header (List.mem_cons_of_mem _ hmem)]
      rfl

theorem Request.WellFormed.of_mem_lines (h : request.WellFormed) :
    ∀ line ∈ request.lines, line ≠ [] ∧ '\n' ∉ line := by
  intro line hline
  rcases List.mem_cons.mp hline with rfl | hline
  · constructor
    · simp [Request.line]
    · simp only [Request.line, List.mem_append, List.mem_cons, not_or]
      exact ⟨⟨fun hc => (h.method _ hc).2 rfl, by decide, fun hc => (h.target _ hc).2 rfl⟩, by decide,
        fun hc => (h.version _ hc).2 rfl⟩
  · obtain ⟨header, hmem, rfl⟩ := List.mem_map.mp hline
    have hheader := h.headers header hmem
    constructor
    · simp [Header.line]
    · simp only [Header.line, List.mem_append, List.mem_cons, not_or]
      exact ⟨fun hc => (hheader.name _ hc).2 rfl, by decide, by decide, hheader.value⟩

/-- A well-formed request is what its head reads back as. -/
theorem parseRequest_render (h : request.WellFormed) :
    parseRequest (render request.lines ++ rest) = some (request, rest) := by
  unfold parseRequest
  rw [readHead_render h.of_mem_lines]
  simp [Request.lines, splitOnP_requestLine h, mapM_parseHeader h.headers]

end Requests

end Http
