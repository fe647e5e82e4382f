import Causeway.Model.UrlFile
import Mathlib.Data.Bool.AllAny

/-!
# The URL file

The editor and the next fetch apply one rule to a URL, except at the size limit: the editor measures the URL, the fetch the file, which has a line feed more.
-/

namespace Causeway

variable {calls : WriteCalls} {path : Path} {tree tree' : Tree} {url name : String} {content : ByteArray}

/-! ### The text -/

structure SavableUrl (url : String) : Prop where
  scheme : url.startsWith Dashboard.urlScheme = true
  long : Dashboard.urlScheme.utf8ByteSize < url.utf8ByteSize
  visible : ∀ c ∈ url.toList, isWhitespace c = false ∧ isControl c = false
  short : url.utf8ByteSize ≤ Dashboard.maxSubscriptionUrlBytes

theorem savableUrl_iff : Dashboard.validateSubscriptionUrl url = .ok () ↔ SavableUrl url := by
  unfold Dashboard.validateSubscriptionUrl
  constructor
  · intro h
    split at h
    · cases h
    · rename_i hscheme
      split at h
      · cases h
      · rename_i hlong
        split at h
        · cases h
        · rename_i hvisible
          split at h
          · cases h
          · rename_i hshort
            exact ⟨by simpa using hscheme, by omega, by simpa using hvisible, by omega⟩
  · intro h
    have hlong := h.long
    have hshort := h.short
    have hvisible : (url.toList.any fun c => isWhitespace c || isControl c) = false := by
      simpa using h.visible
    rw [h.scheme, hvisible, if_neg (by decide), if_neg (by omega), if_neg (by decide), if_neg (by omega)]

theorem dropWhile_of_all {p : Char → Bool} {l : List Char} (h : ∀ c ∈ l, p c = false) : l.dropWhile p = l := by
  cases l with
  | nil => rfl
  | cons c l => rw [List.dropWhile_cons_of_neg (by simp [h c List.mem_cons_self])]

/-- Trimming takes the line feed off again. -/
theorem trim_line (h : SavableUrl url) : trim (url ++ "\n") = url := by
  have hvisible : ∀ c ∈ url.toList, isWhitespace c = false := fun c hc => (h.visible c hc).1
  have hne : url.toList ≠ [] := by
    intro hnil
    have hlong := h.long
    rw [String.toList_eq_nil_iff.mp hnil] at hlong
    exact absurd hlong (by decide)
  have hfirst : (url.toList ++ ['\n']).dropWhile isWhitespace = url.toList ++ ['\n'] := by
    cases hurl : url.toList with
    | nil => exact absurd hurl hne
    | cons c rest =>
        rw [hurl] at hvisible
        rw [List.cons_append, List.dropWhile_cons_of_neg (by simp [hvisible c List.mem_cons_self])]
  unfold trim trimText
  have hlf : ("\n" : String).toList = ['\n'] := rfl
  rw [String.toList_append, hlf, hfirst, List.reverse_append, List.reverse_singleton, List.singleton_append,
    List.dropWhile_cons_of_pos (by decide), dropWhile_of_all fun c hc => hvisible c (List.mem_reverse.mp hc),
    List.reverse_reverse, String.ofList_toList]

/-! ### The tree -/

/-- What is renamed, given what the temporary name led to: a private file, or still the device. -/
def written (content : ByteArray) : Option Entry → Entry
  | some .special => .special
  | _ => .file content 0o600

theorem fileName_eq_some (h : fileName path = some name) : path = path.dropLast ++ [name] := by
  obtain ⟨hlast, -⟩ := Option.filter_eq_some_iff.mp h
  rw [List.getLast?_eq_some_iff] at hlast
  obtain ⟨parent, rfl⟩ := hlast
  rw [List.dropLast_concat]

theorem urlTmp_ne (h : fileName path = some name) : urlTmp path name ≠ path := by
  intro heq
  have hpath := heq.trans (fileName_eq_some h)
  simp [urlTmp] at hpath

theorem setPermissions_write (h : tree.openTruncate calls path = some tree') :
    ((tree'.write path content).setPermissions path 0o600) path = some (written content (tree path)) := by
  unfold Tree.openTruncate at h
  split at h
  · rename_i hpath
    cases h
    simp [Tree.write, Tree.setPermissions, written, hpath]
  · rename_i mode hpath
    cases h
    simp [Tree.write, Tree.setPermissions, written, hpath]
  · rename_i hpath
    cases h
    simp [Tree.write, Tree.setPermissions, written, hpath]
  · cases h

theorem rename_new {old new : Path} (hne : old ≠ new) (h : tree.rename calls old new = some tree') : tree' new = tree old := by
  unfold Tree.rename at h
  split at h
  · cases h
  · cases h
  · cases h
    rw [Function.update_of_ne hne.symm, Function.update_self]

/-- Where the URL has been saved, the path leads to what was written. -/
theorem saved (h : (writeSubscriptionUrlAtomic calls path url tree).1 = .ok ()) : ∃ name, fileName path = some name ∧
    (writeSubscriptionUrlAtomic calls path url tree).2 path =
      some (written (urlBytes url) (tree (urlTmp path name))) := by
  cases hname : fileName path with
  | none => simp [writeSubscriptionUrlAtomic, hname] at h
  | some name =>
      refine ⟨name, rfl, ?_⟩
      cases hopen : tree.openTruncate calls (urlTmp path name) with
      | none => simp [writeSubscriptionUrlAtomic, hname, hopen] at h
      | some opened =>
          unfold writeSubscriptionUrlAtomic at h ⊢
          simp only [hname, hopen] at h ⊢
          cases hshort : calls.short with
          | some count => simp [hshort] at h
          | none =>
              cases hsynced : calls.synced with
              | false => simp [hshort, hsynced] at h
              | true =>
                  cases hpermitted : calls.permitted with
                  | false => simp [hshort, hsynced, hpermitted] at h
                  | true =>
                      cases hrename : ((opened.write (urlTmp path name) (urlBytes url)).setPermissions
                          (urlTmp path name) 0o600).rename calls (urlTmp path name) path with
                      | none => simp [hshort, hsynced, hpermitted, hrename] at h
                      | some renamed =>
                          simp only [Bool.not_true, Bool.false_eq_true, if_false]
                          rw [rename_new (urlTmp_ne hname) hrename, setPermissions_write hopen]

/-! ### The fetch -/

theorem size_urlBytes : (urlBytes url).size = url.utf8ByteSize + 1 := by
  rw [urlBytes, ByteArray.size_append]
  rfl

theorem fromUTF8?_urlBytes : String.fromUTF8? (urlBytes url) = some (url ++ "\n") := by
  have hbytes : urlBytes url = (url ++ "\n").toByteArray := String.toByteArray_append.symm
  rw [hbytes, String.fromUTF8?, dif_pos (url ++ "\n").isValidUTF8]
  rfl

theorem fetchUrl_private (h : SavableUrl url) (hpath : tree path = some (.file (urlBytes url) 0o600)) :
    fetchUrl tree path = if url.utf8ByteSize < Dashboard.maxSubscriptionUrlBytes then .ok url
      else .error (.invalidUrlFile path) := by
  have hsecret : validateSecretFile tree path = .ok () := by simp [validateSecretFile, hpath]
  have hvisible : (url.toList.any fun c => isWhitespace c || isControl c) = false := by
    simpa using h.visible
  have hlong := h.long
  unfold fetchUrl
  simp only [hsecret, hpath, size_urlBytes, fromUTF8?_urlBytes, trim_line h, h.scheme, hvisible, bind, Except.bind]
  by_cases hshort : url.utf8ByteSize < Dashboard.maxSubscriptionUrlBytes
  · rw [if_neg (by omega), if_pos hshort]
    simp [hlong, pure, Except.pure]
  · rw [if_pos (by omega), if_neg hshort]
    rfl


theorem fetchUrl_special (hpath : tree path = some .special) : fetchUrl tree path = .error (.invalidUrlFile path) := by
  simp [fetchUrl, validateSecretFile, hpath, bind, Except.bind]

/-- The next fetch uses a saved URL exactly if it is shorter than the limit, and no device had the temporary name. -/
theorem saved_url_fetched (calls : WriteCalls) (path : Path) (url : String) (tree : Tree)
    (haccepted : Dashboard.validateSubscriptionUrl url = .ok ())
    (hsaved : (writeSubscriptionUrlAtomic calls path url tree).1 = .ok ()) :
    fetchUrl (writeSubscriptionUrlAtomic calls path url tree).2 path = .ok url ↔
      url.utf8ByteSize < Dashboard.maxSubscriptionUrlBytes ∧
        ∀ name, fileName path = some name → tree (urlTmp path name) ≠ some .special := by
  have hsavable := savableUrl_iff.mp haccepted
  obtain ⟨name, hname, hpath⟩ := saved hsaved
  by_cases hspecial : tree (urlTmp path name) = some .special
  · rw [hspecial] at hpath
    rw [fetchUrl_special hpath]
    constructor
    · intro h
      cases h
    · intro h
      exact absurd hspecial (h.2 name hname)
  · have hwritten : written (urlBytes url) (tree (urlTmp path name)) = .file (urlBytes url) 0o600 := by
      unfold written
      split
      · rename_i heq
        exact absurd heq hspecial
      · rfl
    rw [hwritten] at hpath
    rw [fetchUrl_private hsavable hpath]
    by_cases hshort : url.utf8ByteSize < Dashboard.maxSubscriptionUrlBytes
    · rw [if_pos hshort]
      refine ⟨fun _ => ⟨hshort, fun other hother => ?_⟩, fun _ => rfl⟩
      rw [hname] at hother
      rwa [← Option.some.inj hother]
    · rw [if_neg hshort]
      constructor
      · intro h
        cases h
      · intro h
        exact absurd h.1 hshort

def smoothCalls : WriteCalls where
  opened := true
  mode := 0o600
  short := none
  synced := true
  permitted := true
  renamed := true
  error := ""

theorem saved_url_fetched_short :
    fetchUrl (writeSubscriptionUrlAtomic smoothCalls ["url"] "https://h/" fun _ => none).2 ["url"] = .ok "https://h/" :=
  (saved_url_fetched smoothCalls ["url"] "https://h/" (fun _ => none) (savableUrl_iff.mpr ⟨by decide +kernel, by decide +kernel,
    List.all_iff_forall_prop.mp (by decide +kernel), by decide +kernel⟩) rfl).mpr ⟨by decide +kernel, fun _ _ h => by cases h⟩

/-- A URL with as many bytes as the editor admits. -/
def longestUrl : String := Dashboard.urlScheme ++ String.ofList (List.replicate 8184 'a')

theorem utf8ByteSize_replicate {n : Nat} : (String.ofList (List.replicate n 'a')).utf8ByteSize = n := by
  induction n with
  | zero => rfl
  | succ n ih =>
      rw [List.replicate_succ, String.ofList_cons, String.utf8ByteSize_append, ih]
      exact Nat.add_comm 1 n

theorem utf8ByteSize_longestUrl : longestUrl.utf8ByteSize = Dashboard.maxSubscriptionUrlBytes := by
  rw [longestUrl, String.utf8ByteSize_append, utf8ByteSize_replicate]
  rfl

theorem savable_longestUrl : SavableUrl longestUrl where
  scheme := by
    rw [String.startsWith_string_iff, longestUrl, String.toList_append]
    exact List.prefix_append _ _
  long := by
    rw [utf8ByteSize_longestUrl]
    decide +kernel
  visible := by
    have hscheme : ∀ c ∈ Dashboard.urlScheme.toList, isWhitespace c = false ∧ isControl c = false :=
      List.all_iff_forall_prop.mp (by decide +kernel)
    intro c hc
    rw [longestUrl, String.toList_append, List.mem_append, String.toList_ofList] at hc
    rcases hc with hc | hc
    · exact hscheme c hc
    · rw [List.eq_of_mem_replicate hc]
      decide
  short := by rw [utf8ByteSize_longestUrl]

/-- The editor saves the longest URL that it admits, and the next fetch rejects the file. -/
theorem saved_url_rejected : Dashboard.validateSubscriptionUrl longestUrl = .ok () ∧
    (writeSubscriptionUrlAtomic smoothCalls ["url"] longestUrl fun _ => none).1 = .ok () ∧
    fetchUrl (writeSubscriptionUrlAtomic smoothCalls ["url"] longestUrl fun _ => none).2 ["url"] =
      .error (.invalidUrlFile ["url"]) := by
  refine ⟨savableUrl_iff.mpr savable_longestUrl, rfl, ?_⟩
  obtain ⟨name, hname, hpath⟩ := @saved smoothCalls ["url"] (fun _ => none) longestUrl rfl
  rw [fetchUrl_private savable_longestUrl hpath, utf8ByteSize_longestUrl, if_neg (Nat.lt_irrefl _)]

end Causeway
