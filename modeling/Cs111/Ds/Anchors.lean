import Cs111.Ds.Failures
import Cs111.Lib.Ere

namespace Ds

def Posix (locale : List Char → Option (Char → Bool))
    (regcomp : String → Option (String → Bool)) : Prop :=
  ∀ s P, Ere.parse locale s.toList = some P →
    ∃ f, regcomp s = some f ∧ ∀ K : String, f K = true ↔ P.Search K.toList

section Buffer
variable (H : DsHeaders)

def cString (buffer : List Char) : List Char := buffer.takeWhile fun c => c != '\x00'

def keyBuffer (buffer bytes : List Char) : List Char :=
  (bytes ++ buffer.drop bytes.length).set (H.dsMaxKeylen - 1) '\x00'

def subscribeBuffer (stack bytes : List Char) : List Char :=
  (keyBuffer H (stack.set 0 '^') bytes).set (H.dsMaxKeylen - 1) '\x00'

def subscribeRegex (stack bytes : List Char) : List Char :=
  cString (subscribeBuffer H stack bytes) ++ ['$']

def keyArg (stack bytes : List Char) : KeyArg :=
  ⟨bytes.length, .ok (String.ofList (cString (keyBuffer H stack bytes)))⟩

variable {H}

theorem keyBuffer_anchor {stack bytes : List Char} (h : bytes ≠ []) :
    keyBuffer H (stack.set 0 '^') bytes = keyBuffer H stack bytes := by
  obtain ⟨b, bytes, rfl⟩ := List.exists_cons_of_ne_nil h
  cases stack with
  | nil => rfl
  | cons c stack => rfl

theorem subscribeRegex_eq {stack bytes : List Char} (h : bytes ≠ []) :
    subscribeRegex H stack bytes = cString (keyBuffer H stack bytes) ++ ['$'] := by
  rw [subscribeRegex, subscribeBuffer, keyBuffer_anchor h, keyBuffer, List.set_set]

end Buffer

section Match
variable {C : DsConfig} {t t' : DsTables} {who : ℤ} {m : SubscribeArg}
  {locale : List Char → Option (Char → Bool)}

theorem set_subscription {t : DsTables} {p : Subscription → Bool} {j : ℕ} (sub : Subscription)
    (h : t.dsSubs.findIdx? p = some j) : (setSub t j sub).dsSubs[j]? = some sub := by
  obtain ⟨hj, -⟩ := List.findIdx?_eq_some_iff_getElem.mp h
  exact List.getElem?_set_self hj

theorem subscribeSlot_found {owner : String} {j : ℕ} (sub : Subscription)
    (h : subscribeSlot t owner m = .ok j) : (setSub t j sub).dsSubs[j]? = some sub := by
  rw [subscribeSlot] at h
  split at h
  · split at h <;> cases h
    rename_i hj
    exact set_subscription sub hj
  · rename_i hj
    split at h <;> cases h
    exact set_subscription sub hj

theorem subscribeRegex_copied {key : KeyArg} (h : doSubscribe C t who key m = (.ok (), t')) :
    ∃ (keyName : String) (j : ℕ) (sub : Subscription), getKeyName C.toDsHeaders key = .ok keyName ∧
      t'.dsSubs[j]? = some sub ∧ dsGetprocname C.toDsHeaders t.toDsServer who = some sub.owner ∧
      sub.inUse = true ∧ C.regcomp (keyName ++ "$") = some sub.regex := by
  rw [doSubscribe] at h
  split at h
  · cases h
  · rename_i owner howner
    split at h
    · cases h
    · rename_i j hslot
      split at h
      · cases h
      · rename_i keyName hkey
        split at h
        · cases h
        · rename_i regex hcomp
          cases h
          exact ⟨keyName, j, _, hkey, subscribeSlot_found _ hslot, howner, rfl, hcomp⟩

theorem key_name_ok {stack bytes : List Char} {keyName : String}
    (h : getKeyName C.toDsHeaders (keyArg C.toDsHeaders stack bytes) = .ok keyName) :
    bytes ≠ [] ∧ keyName = String.ofList (cString (keyBuffer C.toDsHeaders stack bytes)) := by
  rw [getKeyName] at h
  split at h
  · cases h
  · rename_i hlen
    cases h
    refine ⟨?_, rfl⟩
    rintro rfl
    exact hlen (.inr (by simp [keyArg]))

theorem subscription_loose (hposix : Posix locale C.regcomp) {stack bytes : List Char}
    (h : doSubscribe C t who (keyArg C.toDsHeaders stack bytes) m = (.ok (), t')) :
    ∃ (j : ℕ) (sub : Subscription), t'.dsSubs[j]? = some sub ∧ sub.inUse = true ∧
      dsGetprocname C.toDsHeaders t.toDsServer who = some sub.owner ∧
      C.regcomp (String.ofList (subscribeRegex C.toDsHeaders stack bytes)) = some sub.regex ∧
      ∀ P, Ere.parse locale (cString (keyBuffer C.toDsHeaders stack bytes)) = some P →
        ∀ K : String, sub.regex K = true ↔ P.Loose K.toList := by
  obtain ⟨keyName, j, sub, hkey, hsub, howner, huse, hcomp⟩ := subscribeRegex_copied h
  obtain ⟨hbytes, rfl⟩ := key_name_ok hkey
  have hregex : String.ofList (subscribeRegex C.toDsHeaders stack bytes) =
      String.ofList (cString (keyBuffer C.toDsHeaders stack bytes)) ++ "$" := by
    rw [subscribeRegex_eq hbytes, String.ofList_append]
  refine ⟨j, sub, hsub, huse, howner, hregex ▸ hcomp, fun P hP K => ?_⟩
  obtain ⟨f, hf, hmatch⟩ := hposix
    (String.ofList (cString (keyBuffer C.toDsHeaders stack bytes)) ++ "$") P.dollar (by
      rw [String.toList_append, String.toList_ofList]
      exact Ere.parse_dollar hP)
  obtain rfl : sub.regex = f := Option.some.inj (hcomp.symm.trans hf)
  rw [hmatch, Ere.Pattern.search_dollar]

theorem subscription_matches_iff (hposix : Posix locale C.regcomp) {stack bytes : List Char}
    (h : doSubscribe C t who (keyArg C.toDsHeaders stack bytes) m = (.ok (), t')) :
    ∃ (j : ℕ) (sub : Subscription), t'.dsSubs[j]? = some sub ∧ sub.inUse = true ∧
      dsGetprocname C.toDsHeaders t.toDsServer who = some sub.owner ∧
      C.regcomp (String.ofList (subscribeRegex C.toDsHeaders stack bytes)) = some sub.regex ∧
      ∀ P, Ere.parse locale (cString (keyBuffer C.toDsHeaders stack bytes)) = some P →
        ∀ K : String, (sub.regex K = true ↔ P.Whole K.toList) ↔
          (P.Loose K.toList → P.Whole K.toList) := by
  obtain ⟨j, sub, hsub, huse, howner, hcomp, hloose⟩ := subscription_loose hposix h
  refine ⟨j, sub, hsub, huse, howner, hcomp, fun P hP K => ?_⟩
  rw [hloose P hP K]
  exact ⟨fun h => h.mp, fun h => ⟨h, Ere.Pattern.Whole.loose⟩⟩

end Match

section Example

def plainLocale : List Char → Option (Char → Bool) := fun _ => none

open Classical in
noncomputable def posixRegcomp (s : String) : Option (String → Bool) :=
  (Ere.parse plainLocale s.toList).map fun P K => decide (P.Search K.toList)

theorem posixRegcomp_posix : Posix plainLocale posixRegcomp := by
  intro s P hP
  refine ⟨_, by rw [posixRegcomp, hP]; rfl, fun K => ?_⟩
  simp

noncomputable def posixConfig : DsConfig := { smallConfig with regcomp := posixRegcomp }

def netKey : List Char := ['n', 'e', 't', '\x00']

def netPattern : Ere.Pattern :=
  ⟨[], .seq (.seq (.seq .eps (.sym fun c => c == 'n')) (.sym fun c => c == 'e'))
    (.sym fun c => c == 't')⟩

theorem net_parse : Ere.parse plainLocale (cString (keyBuffer posixConfig.toDsHeaders [] netKey)) =
    some netPattern := rfl

theorem net_matches (K : List Char) (i j : ℕ) : netPattern.last.Matches K i j ↔
    j = i + 3 ∧ K[i]? = some 'n' ∧ K[i + 1]? = some 'e' ∧ K[i + 2]? = some 't' := by
  constructor
  · rintro ⟨_, ⟨_, ⟨_, rfl, rfl, c, hc, hn⟩, rfl, c', hc', he⟩, rfl, c'', hc'', ht⟩
    simp only [beq_iff_eq] at hn he ht
    subst hn he ht
    exact ⟨rfl, hc, hc', hc''⟩
  · rintro ⟨rfl, hn, he, ht⟩
    exact ⟨_, ⟨_, ⟨_, rfl, rfl, 'n', hn, rfl⟩, rfl, 'e', he, rfl⟩, rfl, 't', ht, rfl⟩

theorem net_subscribe : ∃ t', doSubscribe posixConfig emptyTables 6
    (keyArg posixConfig.toDsHeaders [] netKey) ⟨noTypes, false, false, fun _ => false⟩ =
      (.ok (), t') := ⟨_, rfl⟩

theorem substring_matches : ∃ t', doSubscribe posixConfig emptyTables 6
    (keyArg posixConfig.toDsHeaders [] netKey) ⟨noTypes, false, false, fun _ => false⟩ =
      (.ok (), t') ∧
    ∃ (j : ℕ) (sub : Subscription), t'.dsSubs[j]? = some sub ∧ sub.inUse = true ∧
      sub.regex "subnet" = true ∧ ¬ netPattern.Whole "subnet".toList := by
  obtain ⟨t', hsub⟩ := net_subscribe
  obtain ⟨j, sub, hj, huse, -, -, hloose⟩ := subscription_loose posixRegcomp_posix hsub
  refine ⟨t', hsub, j, sub, hj, huse, (hloose netPattern net_parse "subnet").mpr ?_, ?_⟩
  · exact .inr ⟨3, by decide, (net_matches _ 3 _).mpr ⟨rfl, rfl, rfl, rfl⟩⟩
  · rintro ⟨a, ha, hwhole⟩
    obtain rfl := List.mem_singleton.mp ha
    exact absurd ((net_matches _ 0 _).mp hwhole).1 (by decide)

theorem subscription_matches_net : ∃ t', doSubscribe posixConfig emptyTables 6
    (keyArg posixConfig.toDsHeaders [] netKey) ⟨noTypes, false, false, fun _ => false⟩ =
      (.ok (), t') ∧
    ∃ (j : ℕ) (sub : Subscription), t'.dsSubs[j]? = some sub ∧
      (sub.regex "net" = true ↔ netPattern.Whole "net".toList) := by
  obtain ⟨t', hsub⟩ := net_subscribe
  obtain ⟨j, sub, hj, -, -, -, hall⟩ := subscription_matches_iff posixRegcomp_posix hsub
  refine ⟨t', hsub, j, sub, hj, (hall netPattern net_parse "net").mpr fun _ => ?_⟩
  exact ⟨_, List.mem_singleton_self _, (net_matches _ 0 _).mpr ⟨rfl, rfl, rfl, rfl⟩⟩

end Example

end Ds
