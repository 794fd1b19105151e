import Cs111.Lib.CString
import Mathlib.Data.BitVec

-- parse_path(): the path is edited in place while it is resolved.
namespace Mfs.Paths
open CString

structure PathHeaders where
  PATH_MAX : ℕ
  NAME_MAX : ℕ
  SYMLOOP_MAX : ℕ
  path_lt : PATH_MAX < 2 ^ 31
  name_pos : 0 < NAME_MAX

def ROOT_INODE : ℕ := 1
def slash : Byte := 47
def dot1 : List Byte := [46]
def dot2 : List Byte := [46, 46]

inductive PathFault where
  | outside | panic

inductive Code where
  | OK | EENTERMOUNT | ELEAVEMOUNT | ESYMLINK | ELOOP | EIO | ENAMETOOLONG | ENOENT
  | failed (r : ℕ)

-- The inodes of a device: forbidden is what forbidden() says of X_BIT, blink the block that
-- read_map() finds at position 0.
structure Tree (ι : Type) where
  findInode : ℕ → Option ι
  iNum : ι → ℕ
  iNlinks : ι → ℕ
  iMountpoint : ι → Bool
  isLnk : ι → Bool
  iSize : ι → BitVec 32
  blink : ι → Option (ℕ → Byte)
  forbidden : ι → Option ℕ
  searchDir : ι → List Byte → Except ℕ ℕ
  getInode : ℕ → Except ℕ ι
  sIsRoot : Bool

structure Request where
  rootIno : ℕ
  retSymlink : Bool

section Code
variable {ι : Type} (H : PathHeaders) (T : Tree ι) (q : Request)

def inside {α : Type} : Option α → Except PathFault α
  | some a => .ok a
  | none => .error .outside

def linkText (data : ℕ → Byte) (llen : ℕ) : List Byte := (List.range llen).map data

def getName (pathName : ℕ) (buf : List Byte) : Except PathFault (ℕ × List Byte) := do
  let cp ← inside (skipWhile buf (· = slash) pathName)
  let ep ← inside (skipWhile buf (fun c => c ≠ 0 ∧ c ≠ slash) cp)
  let len := min (ep - cp) H.NAME_MAX
  let string := if len = 0 then dot1 else (buf.drop cp).take len
  if string.length < H.NAME_MAX + 1 then return (ep, string) else throw .outside

def moveSuffix (suffix llen slen : ℕ) (buf : List Byte) : Option (List Byte) :=
  if suffix ≠ llen then memmove buf llen suffix (slen + 1) else some buf

def ltraverse (rip : ι) (suffix : ℕ) (buf : List Byte) : Except PathFault (Code × List Byte) :=
  match T.blink rip with
  | none => .ok ( Code.EIO, buf)
  | some data => do
    let llen := (T.iSize rip).toNat
    let slen ← inside (strlen buf suffix)
    if slen > 0 then
      let first ← inside buf[suffix]?
      if first ≠ slash then throw .panic
      else if (slen + llen + 1) % 2 ^ 32 > H.PATH_MAX + 1 then return (.ENAMETOOLONG, buf)
      else
        let buf ← inside (moveSuffix suffix llen slen buf)
        let buf ← inside (overwrite buf 0 (linkText data llen))
        return (.OK, buf)
    else if (llen + 1) % 2 ^ 32 > H.PATH_MAX + 1 then return (.ENAMETOOLONG, buf)
    else
      let buf ← inside (overwrite buf llen [0])
      let buf ← inside (overwrite buf 0 (linkText data llen))
      return (.OK, buf)

def advance (dirp : ι) (string : List Byte) : Option ι × Code :=
  if string = [] then (none, .ENOENT)
  else
    match T.searchDir dirp string with
    | .error r => (none, .failed r)
    | .ok numb =>
      match T.getInode numb with
      | .error r => (none, .failed r)
      | .ok rip =>
        let climbs := T.iNum rip = ROOT_INODE ∧ T.iNum dirp = ROOT_INODE ∧
          string[1]? = some 46 ∧ T.sIsRoot = false
        (some rip, if T.iMountpoint rip then .EENTERMOUNT
          else if climbs then .ELEAVEMOUNT else .OK)

def advanced (dirp : ι) (string : List Byte) : ι ⊕ Code :=
  match advance T dirp string with
  | (some rip, .OK) | (some rip, .EENTERMOUNT) | (some rip, .ELEAVEMOUNT) => .inl rip
  | (_, r) => .inr r

structure Place (ι : Type) where
  rip : ι
  leavingMount : Bool
  cp : ℕ
  userPath : List Byte
  symlinks : ℕ

structure Answer (ι : Type) where
  r : Code
  resIno : Option ι
  offset : ℕ
  userPath : List Byte

def expand (p : Place ι) (rip : ι) (nextCp : ℕ) : Except PathFault (Place ι ⊕ Answer ι) := do
  let (r, buf) ← ltraverse H T rip nextCp p.userPath
  if p.symlinks + 1 > H.SYMLOOP_MAX then return .inr ⟨.ELOOP, none, 0, buf⟩
  else
    match r with
    | .OK =>
      let first ← inside buf[0]?
      if first = slash then return .inr ⟨.ESYMLINK, none, 0, buf⟩
      else return .inl ⟨p.rip, false, 0, buf, p.symlinks + 1⟩
    | r => return .inr ⟨r, none, 0, buf⟩

def descend (p : Place ι) (cp nextCp : ℕ) (component : List Byte) :
    Except PathFault (Place ι ⊕ Answer ι) :=
  if p.leavingMount = false ∧ T.iMountpoint p.rip then
    .ok (.inr ⟨.EENTERMOUNT, some p.rip, cp, p.userPath⟩)
  else
    match advanced T p.rip (if p.leavingMount then dot2 else component) with
    | .inr r => .ok (.inr ⟨r, none, 0, p.userPath⟩)
    | .inl rip =>
      if T.isLnk rip then do
        let next ← inside p.userPath[nextCp]?
        if next = 0 ∧ q.retSymlink then return .inr ⟨.OK, some rip, nextCp, p.userPath⟩
        else expand H T p rip nextCp
      else .ok (.inl ⟨rip, false, nextCp, p.userPath, p.symlinks⟩)

-- One turn of the loop; *offsetp is 0 until it ends.
def round (p : Place ι) : Except PathFault (Place ι ⊕ Answer ι) := do
  let c ← inside p.userPath[p.cp]?
  if c = 0 then
    return .inr ⟨if T.iMountpoint p.rip then .EENTERMOUNT else .OK, some p.rip, p.cp, p.userPath⟩
  else
    let cp ← inside (skipWhile p.userPath (· = slash) p.cp)
    let (nextCp, component) ← getName H cp p.userPath
    if component = dot2 then
      match T.forbidden p.rip with
      | some r => return .inr ⟨.failed r, none, 0, p.userPath⟩
      | none =>
        if T.iNum p.rip = q.rootIno then return .inl { p with cp := nextCp }
        else if T.iNum p.rip = ROOT_INODE ∧ T.sIsRoot = false then
          return .inr ⟨.ELEAVEMOUNT, none, cp, p.userPath⟩
        else descend H T q p cp nextCp component
    else descend H T q p cp nextCp component

def loop : ℕ → Place ι → Except PathFault (Option (Answer ι))
  | 0, _ => .ok none
  | fuel + 1, p =>
    match round H T q p with
    | .error e => .error e
    | .ok (.inl p) => loop fuel p
    | .ok (.inr a) => .ok (some a)

def start (dirIno : ℕ) : Option ι :=
  match T.findInode dirIno with
  | none => none
  | some rip => if T.iNlinks rip = 0 then none else some rip

def parsePath (dirIno : ℕ) (userPath : List Byte) (fuel : ℕ) :
    Except PathFault (Option (Answer ι)) :=
  match start T dirIno with
  | none => .ok (some ⟨.ENOENT, none, 0, userPath⟩)
  | some rip => loop H T q fuel ⟨rip, T.iMountpoint rip, 0, userPath, 0⟩

end Code

-- The same on strings: what is left of the path is a list of bytes.
section Strings
variable {ι : Type} (H : PathHeaders) (T : Tree ι) (q : Request)

structure Spot (ι : Type) where
  rip : ι
  leaving : Bool
  path : List Byte
  symlinks : ℕ

inductive Outcome (ι : Type) where
  | found (rip : Option ι) (rest : List Byte)
  | enters (rip : Option ι) (rest : List Byte)
  | leaves (rest : List Byte)
  | absolute (rest : List Byte)
  | failed (r : Code)

inductive Look (ι : Type) where
  | stop (o : Outcome ι)
  | past (s : Spot ι)
  | link (rip : ι) (rest : List Byte)

def stripped (path : List Byte) : List Byte := path.dropWhile (· = slash)
def behind (path : List Byte) : List Byte := (stripped path).dropWhile fun c => c ≠ 0 ∧ c ≠ slash
def first (path : List Byte) : List Byte := (stripped path).takeWhile fun c => c ≠ 0 ∧ c ≠ slash
def component (path : List Byte) : List Byte :=
  if first path = [] then dot1 else (first path).take H.NAME_MAX

def lookInto (s : Spot ι) : Look ι :=
  if s.leaving = false ∧ T.iMountpoint s.rip then .stop (.enters (some s.rip) (stripped s.path))
  else
    match advanced T s.rip (if s.leaving then dot2 else component H s.path) with
    | .inr r => .stop (.failed r)
    | .inl rip =>
      if T.isLnk rip then
        if behind s.path = [] ∧ q.retSymlink then .stop (.found (some rip) [])
        else .link rip (behind s.path)
      else .past ⟨rip, false, behind s.path, s.symlinks⟩

def look (s : Spot ι) : Look ι :=
  if s.path = [] then
    .stop (if T.iMountpoint s.rip then .enters (some s.rip) [] else .found (some s.rip) [])
  else if component H s.path = dot2 then
    match T.forbidden s.rip with
    | some r => .stop (.failed (.failed r))
    | none =>
      if T.iNum s.rip = q.rootIno then .past { s with path := behind s.path }
      else if T.iNum s.rip = ROOT_INODE ∧ T.sIsRoot = false then .stop (.leaves (stripped s.path))
      else lookInto H T q s
  else lookInto H T q s

def follow (s : Spot ι) (rip : ι) (rest : List Byte) : Spot ι ⊕ Outcome ι :=
  if s.symlinks + 1 > H.SYMLOOP_MAX then .inr (.failed .ELOOP)
  else
    match T.blink rip with
    | none => .inr (.failed Code.EIO)
    | some data =>
      let llen := (T.iSize rip).toNat
      if rest.length + llen + 1 > H.PATH_MAX + 1 then .inr (.failed .ENAMETOOLONG)
      else
        let path := (linkText data llen ++ rest).takeWhile (· ≠ 0)
        if path.head? = some slash then .inr (.absolute path)
        else .inl ⟨s.rip, false, path, s.symlinks + 1⟩

def step (s : Spot ι) : Spot ι ⊕ Outcome ι :=
  match look H T q s with
  | .stop o => .inr o
  | .past s => .inl s
  | .link rip rest => follow H T s rip rest

inductive Resolves : Spot ι → Outcome ι → Prop
  | stop {s : Spot ι} {o : Outcome ι} (h : step H T q s = .inr o) : Resolves s o
  | go {s s' : Spot ι} {o : Outcome ι} (h : step H T q s = .inl s') (hrest : Resolves s' o) :
      Resolves s o

def Reaches : Spot ι → Spot ι → Prop := Relation.ReflTransGen fun s s' => step H T q s = .inl s'

def Sums (s : Spot ι) : Prop :=
  ∀ rip rest, look H T q s = .link rip rest → (T.blink rip).isSome →
    rest.length + (T.iSize rip).toNat + 1 < 2 ^ 32

def Answer.outcome (a : Answer ι) : Outcome ι :=
  match a.r with
  | .OK => .found a.resIno (strAt a.userPath a.offset)
  | .EENTERMOUNT => .enters a.resIno (strAt a.userPath a.offset)
  | .ELEAVEMOUNT => .leaves (strAt a.userPath a.offset)
  | .ESYMLINK => .absolute (strAt a.userPath a.offset)
  | r => .failed r

def Parses (dirIno : ℕ) (userPath : List Byte) : Prop :=
  ∃ n, ∀ fuel, n ≤ fuel → ∃ a, parsePath H T q dirIno userPath fuel = .ok (some a) ∧
    match start T dirIno with
    | none => a.outcome = .failed .ENOENT
    | some rip => Resolves H T q ⟨rip, T.iMountpoint rip, strAt userPath 0, 0⟩ a.outcome

end Strings

section Buffers
variable {ι : Type} {H : PathHeaders} {T : Tree ι} {q : Request} {buf : List Byte} {p k : ℕ}

@[simp] theorem inside_bind {α β : Type} (a : α) (f : α → Except PathFault β) :
    (inside (some a) >>= f) = f a := rfl

theorem getName_at (h : Terminated buf p) :
    ∃ ep, getName H p buf = .ok (ep, component H (strAt buf p)) ∧ Terminated buf ep ∧
      strAt buf ep = behind (strAt buf p) := by
  obtain ⟨cp, hcp, hterm, -, hstrip, -⟩ := skipWhile_at (· = slash) rfl h
  obtain ⟨ep, hep, hterm', hlen, hbehind, htake⟩ :=
    skipWhile_at (fun c => c ≠ 0 ∧ c ≠ slash) rfl hterm
  rw [hstrip] at hlen hbehind htake
  change _ = cp + (first (strAt buf p)).length at hlen
  change _ = behind (strAt buf p) at hbehind
  change _ = first (strAt buf p) at htake
  have hcount : ep - cp = (first (strAt buf p)).length := by omega
  have hname : (if min (ep - cp) H.NAME_MAX = 0 then dot1
      else (buf.drop cp).take (min (ep - cp) H.NAME_MAX)) = component H (strAt buf p) := by
    have hempty : min (ep - cp) H.NAME_MAX = 0 ↔ first (strAt buf p) = [] := by
      have hpos := H.name_pos
      rw [hcount, ← List.length_eq_zero_iff]
      omega
    rw [component, Nat.min_comm, ← List.take_take, htake]
    simp only [← hempty, Nat.min_comm]
  have hfits : (component H (strAt buf p)).length < H.NAME_MAX + 1 := by
    have hpos := H.name_pos
    rw [component]
    split
    · exact Nat.succ_lt_succ hpos
    · rw [List.length_take]
      omega
  refine ⟨ep, ?_, hterm', hbehind⟩
  rw [getName, hcp, inside_bind, hep, inside_bind]
  simp only [hname]
  exact if_pos hfits

variable {rip : ι} {data : ℕ → Byte}

theorem linkText_length (data : ℕ → Byte) (n : ℕ) : (linkText data n).length = n := by
  rw [linkText, List.length_map, List.length_range]

theorem ltraverse_at (hdata : T.blink rip = some data) (hbuf : buf.length = H.PATH_MAX + 1)
    (h : Terminated buf k) (hfront : strAt buf k = [] ∨ (strAt buf k).head? = some slash) :
    (2 ^ 32 ≤ (strAt buf k).length + (T.iSize rip).toNat + 1 →
      ltraverse H T rip k buf = .error .outside) ∧
    ((strAt buf k).length + (T.iSize rip).toNat + 1 < 2 ^ 32 →
      if (strAt buf k).length + (T.iSize rip).toNat + 1 > H.PATH_MAX + 1 then
        ltraverse H T rip k buf = .ok (.ENAMETOOLONG, buf)
      else ∃ buf', ltraverse H T rip k buf = .ok (.OK, buf') ∧ buf'.length = buf.length ∧
        Terminated buf' 0 ∧ strAt buf' 0 =
          (linkText data (T.iSize rip).toNat ++ strAt buf k).takeWhile (· ≠ 0)) := by
  have hsize := (T.iSize rip).isLt
  have hlt := h.lt
  have hmax := H.path_lt
  obtain ⟨rest, hrest⟩ := h.split
  have hne : ∀ c ∈ strAt buf k, c ≠ 0 := fun c hc => strAt_ne hc
  have hlink := linkText_length data (T.iSize rip).toNat
  rw [ltraverse, hdata]
  simp only [strlen_at h, inside_bind]
  generalize (T.iSize rip).toNat = llen at *
  rcases hfront with hnil | hslash
  · rw [hnil] at hrest hne ⊢
    rw [List.length_nil, if_neg (Nat.lt_irrefl 0), Nat.zero_add]
    refine ⟨fun hwrap => ?_, fun hsum => ?_⟩
    · rw [if_neg (by omega), overwrite_none (by rw [List.length_singleton]; omega)]
      rfl
    · rw [Nat.mod_eq_of_lt hsum]
      split
      · rfl
      · obtain ⟨buf₁, hsome, hlen₁, hdrop⟩ := overwrite_some buf [0] llen
          (by rw [List.length_singleton]; omega)
        rw [← hlink] at hdrop
        obtain ⟨buf', hsome', hlen', hterm, hstr⟩ := overwrite_front hdrop hne
        rw [hsome, inside_bind, hsome', inside_bind]
        exact ⟨buf', rfl, hlen'.trans hlen₁, hterm, hstr⟩
  · have hpos : (strAt buf k).length > 0 := by
      rw [gt_iff_lt, List.length_pos_iff]
      intro hnil
      rw [hnil] at hslash
      cases hslash
    have hget : buf[k]? = some slash := by
      obtain ⟨c, hc⟩ := h.get
      by_cases hzero : c = 0
      · rw [strAt_zero (hzero ▸ hc)] at hslash
        cases hslash
      · rw [strAt_cons hc hzero] at hslash
        rw [hc, ← hslash]
        rfl
    have htake : (buf.drop k).take ((strAt buf k).length + 1) = strAt buf k ++ [0] := by
      rw [hrest, List.take_append, List.take_of_length_le (Nat.le_succ _), Nat.add_sub_cancel_left]
      rfl
    rw [if_pos hpos, hget, inside_bind, if_neg (not_not.mpr rfl)]
    refine ⟨fun hwrap => ?_, fun hsum => ?_⟩
    · have hmove : moveSuffix k llen (strAt buf k).length buf = none := by
        rw [moveSuffix, if_pos (by omega), memmove, if_pos (by omega), htake]
        refine overwrite_none ?_
        rw [List.length_append, List.length_singleton]
        omega
      rw [if_neg (by omega), hmove]
      rfl
    · rw [Nat.mod_eq_of_lt hsum]
      split
      · rfl
      · obtain ⟨buf₁, rest₁, hmoved, hlen₁, hdrop⟩ : ∃ buf₁ rest₁,
            moveSuffix k llen (strAt buf k).length buf = some buf₁ ∧ buf₁.length = buf.length ∧
            buf₁.drop llen = strAt buf k ++ 0 :: rest₁ := by
          rw [moveSuffix]
          split
          · obtain ⟨buf₁, hsome, hlen₁, hdrop⟩ := overwrite_some buf (strAt buf k ++ [0]) llen (by
                rw [List.length_append, List.length_singleton]
                omega)
            rw [List.append_assoc] at hdrop
            exact ⟨buf₁, _, by rw [memmove, if_pos (by omega), htake, hsome], hlen₁, hdrop⟩
          · rename_i hsame
            rw [← not_not.mp hsame]
            exact ⟨buf, rest, rfl, rfl, hrest⟩
        rw [← hlink] at hdrop
        obtain ⟨buf', hsome', hlen', hterm, hstr⟩ := overwrite_front hdrop hne
        rw [hmoved, inside_bind, hsome', inside_bind]
        exact ⟨buf', rfl, hlen'.trans hlen₁, hterm, hstr⟩

end Buffers

-- A place in the buffer stands for a spot of the walk on strings.
section Walk
variable {ι : Type} {H : PathHeaders} {T : Tree ι} {q : Request} {p : Place ι} {s s' : Spot ι}
  {rip : ι} {path rest : List Byte} {k : ℕ}

def Place.spot (p : Place ι) : Spot ι := ⟨p.rip, p.leavingMount, strAt p.userPath p.cp, p.symlinks⟩

structure Place.Held (H : PathHeaders) (p : Place ι) : Prop where
  length : p.userPath.length = H.PATH_MAX + 1
  ends : Terminated p.userPath p.cp

inductive Matches (H : PathHeaders) :
    Except PathFault (Place ι ⊕ Answer ι) → Spot ι ⊕ Outcome ι → Prop
  | next {p : Place ι} (h : p.Held H) : Matches H (.ok (.inl p)) (.inl p.spot)
  | done {a : Answer ι} : Matches H (.ok (.inr a)) (.inr a.outcome)

def Simulates (H : PathHeaders) (T : Tree ι) (q : Request)
    (r : Except PathFault (Place ι ⊕ Answer ι)) (s : Spot ι) : Prop :=
  (Sums H T q s → Matches H r (step H T q s)) ∧ (¬ Sums H T q s → r = .error .outside)

theorem simulates_stop {r : Except PathFault (Place ι ⊕ Answer ι)} {o : Outcome ι}
    (hlook : look H T q s = .stop o) (hmatch : Matches H r (.inr o)) : Simulates H T q r s := by
  refine ⟨fun _ => ?_, fun hno => absurd (fun rip rest hlink => ?_) hno⟩
  · rwa [step, hlook]
  · rw [hlook] at hlink
    cases hlink

theorem simulates_over {r : Except PathFault (Place ι ⊕ Answer ι)}
    (hlook : look H T q s = .past s') (hmatch : Matches H r (.inl s')) : Simulates H T q r s := by
  refine ⟨fun _ => ?_, fun hno => absurd (fun rip rest hlink => ?_) hno⟩
  · rwa [step, hlook]
  · rw [hlook] at hlink
    cases hlink

theorem behind_front (hne : ∀ c ∈ path, c ≠ 0) :
    behind path = [] ∨ (behind path).head? = some slash := by
  cases hbehind : behind path with
  | nil => exact .inl rfl
  | cons c rest =>
    have hmem : c ∈ path := by
      have hsub : behind path <:+ path :=
        (List.dropWhile_suffix _).trans (List.dropWhile_suffix _)
      exact hsub.subset (hbehind ▸ List.mem_cons_self)
    have htest := List.head?_dropWhile_not (fun c : Byte => decide (c ≠ 0 ∧ c ≠ slash))
      (stripped path)
    rw [show (stripped path).dropWhile _ = c :: rest from hbehind] at htest
    have hslash : c = slash := by
      by_contra hno
      simp [hno] at htest
      exact hne c hmem htest
    exact .inr (congrArg some hslash)

theorem expand_simulates (h : p.Held H) (hlook : look H T q p.spot = .link rip rest)
    (hk : Terminated p.userPath k) (hrest : strAt p.userPath k = rest)
    (hfront : rest = [] ∨ rest.head? = some slash) :
    Simulates H T q (expand H T p rip k) p.spot := by
  subst hrest
  have hstep : step H T q p.spot = follow H T p.spot rip (strAt p.userPath k) := by
    rw [step, hlook]
  have hcount : p.spot.symlinks = p.symlinks := rfl
  rw [Simulates, hstep, follow, expand, hcount]
  cases hdata : T.blink rip with
  | none =>
    have hsums : Sums H T q p.spot := by
      intro rip' rest' hlink hsome
      rw [hlook] at hlink
      cases hlink
      rw [hdata] at hsome
      cases hsome
    refine ⟨fun _ => ?_, fun hno => absurd hsums hno⟩
    rw [ltraverse, hdata]
    change Matches H (if p.symlinks + 1 > H.SYMLOOP_MAX then _ else _) _
    by_cases hmany : p.symlinks + 1 > H.SYMLOOP_MAX
    · rw [if_pos hmany, if_pos hmany]
      exact .done
    · rw [if_neg hmany, if_neg hmany]
      exact .done
  | some data =>
    obtain ⟨hwraps, hsum⟩ := ltraverse_at hdata h.length hk hfront
    have hsums : Sums H T q p.spot ↔
        (strAt p.userPath k).length + (T.iSize rip).toNat + 1 < 2 ^ 32 := by
      refine ⟨fun hs => hs rip _ hlook (by rw [hdata]; rfl), fun hlt rip' rest' hlink _ => ?_⟩
      rw [hlook] at hlink
      cases hlink
      exact hlt
    refine ⟨fun hs => ?_, fun hno => ?_⟩
    · replace hsum := hsum (hsums.mp hs)
      dsimp only
      by_cases hlong : (strAt p.userPath k).length + (T.iSize rip).toNat + 1 > H.PATH_MAX + 1
      · rw [if_pos hlong] at hsum ⊢
        rw [hsum]
        change Matches H (if p.symlinks + 1 > H.SYMLOOP_MAX then _ else _) _
        by_cases hmany : p.symlinks + 1 > H.SYMLOOP_MAX
        · rw [if_pos hmany, if_pos hmany]
          exact .done
        · rw [if_neg hmany, if_neg hmany]
          exact .done
      · rw [if_neg hlong] at hsum ⊢
        obtain ⟨buf, hok, hlen, hterm, hstr⟩ := hsum
        obtain ⟨c, hget⟩ := hterm.get
        rw [hok, ← hstr]
        change Matches H (if p.symlinks + 1 > H.SYMLOOP_MAX then _ else
          (inside buf[0]? >>= fun first => if first = slash then _ else _)) _
        rw [hget, inside_bind]
        have hfirst : (strAt buf 0).head? = some slash ↔ c = slash := by
          by_cases hzero : c = 0
          · rw [strAt_zero (hzero ▸ hget), hzero]
            exact ⟨fun hno => (by cases hno), fun hno => absurd hno (by decide)⟩
          · rw [strAt_cons hget hzero, List.head?_cons, Option.some_inj]
        by_cases hmany : p.symlinks + 1 > H.SYMLOOP_MAX
        · rw [if_pos hmany, if_pos hmany]
          exact .done
        · rw [if_neg hmany, if_neg hmany]
          by_cases hslash : c = slash
          · rw [if_pos hslash, if_pos (hfirst.mpr hslash)]
            exact .done
          · rw [if_neg hslash, if_neg (mt hfirst.mp hslash)]
            have hheld : Place.Held H ⟨p.rip, false, 0, buf, p.symlinks + 1⟩ :=
              ⟨hlen.trans h.length, hterm⟩
            exact .next hheld
    · rw [hwraps (not_lt.mp (mt hsums.mpr hno))]
      rfl

theorem matches_done {a : Answer ι} {o : Outcome ι} (h : a.outcome = o) :
    Matches H (.ok (.inr a)) (.inr o) := h ▸ .done

theorem matches_next {p : Place ι} (hp : p.Held H) (h : p.spot = s) :
    Matches H (.ok (.inl p)) (.inl s) := h ▸ .next hp

theorem advanced_failed {dirp : ι} {name buf : List Byte} {r : Code}
    (h : advanced T dirp name = .inr r) :
    Answer.outcome (⟨r, none, 0, buf⟩ : Answer ι) = .failed r := by
  have hfails : r = .ENOENT ∨ ∃ e, r = .failed e := by
    rw [advanced, advance] at h
    split_ifs at h <;> grind
  rcases hfails with rfl | ⟨e, rfl⟩ <;> rfl

theorem descend_simulates {cp ep : ℕ} (h : p.Held H)
    (hlook : look H T q p.spot = lookInto H T q p.spot)
    (hcp : strAt p.userPath cp = stripped p.spot.path) (hterm : Terminated p.userPath ep)
    (hep : strAt p.userPath ep = behind p.spot.path) :
    Simulates H T q (descend H T q p cp ep (component H p.spot.path)) p.spot := by
  rw [descend]
  rw [lookInto] at hlook
  by_cases hmount : p.leavingMount = false ∧ T.iMountpoint p.rip = true
  · rw [if_pos hmount]
    exact simulates_stop (hlook.trans (if_pos hmount))
      (matches_done (congrArg (Outcome.enters _) hcp))
  · rw [if_neg hmount]
    replace hlook := hlook.trans (if_neg hmount)
    change look H T q p.spot = match advanced T p.rip
      (if p.leavingMount = true then dot2 else component H p.spot.path) with
      | .inr r => _
      | .inl rip => _ at hlook
    cases hfound : advanced T p.rip (if p.leavingMount then dot2 else component H p.spot.path) with
    | inr r =>
      rw [hfound] at hlook
      exact simulates_stop hlook (matches_done (advanced_failed hfound))
    | inl rip =>
      rw [hfound] at hlook
      dsimp only at hlook ⊢
      obtain ⟨c, hget⟩ := hterm.get
      have hzero : c = 0 ↔ behind p.spot.path = [] := by
        rw [← hep]
        refine ⟨fun hc => strAt_zero (hc ▸ hget), fun hnil => ?_⟩
        by_contra hc
        rw [strAt_cons hget hc] at hnil
        cases hnil
      by_cases hlnk : T.isLnk rip = true
      · rw [if_pos hlnk] at hlook ⊢
        rw [hget, inside_bind]
        by_cases hlast : c = 0 ∧ q.retSymlink = true
        · rw [if_pos hlast]
          rw [if_pos ⟨hzero.mp hlast.1, hlast.2⟩] at hlook
          refine simulates_stop hlook (matches_done ?_)
          exact congrArg (Outcome.found _) (hep.trans (hzero.mp hlast.1))
        · rw [if_neg hlast]
          rw [if_neg fun hno => hlast ⟨hzero.mpr hno.1, hno.2⟩] at hlook
          exact expand_simulates h hlook hterm hep (behind_front fun c hc => strAt_ne hc)
      · rw [if_neg hlnk] at hlook ⊢
        refine simulates_over hlook (matches_next ⟨h.length, hterm⟩ ?_)
        rw [Place.spot, hep]
        rfl

theorem round_simulates (h : p.Held H) : Simulates H T q (round H T q p) p.spot := by
  obtain ⟨c, hget⟩ := h.ends.get
  rw [round, hget, inside_bind]
  by_cases hc : c = 0
  · have hnil : p.spot.path = [] := strAt_zero (hc ▸ hget)
    have hlook : look H T q p.spot = .stop (if T.iMountpoint p.rip then
        .enters (some p.rip) [] else .found (some p.rip) []) := by
      rw [look, if_pos hnil]
      rfl
    rw [if_pos hc]
    refine simulates_stop hlook (matches_done ?_)
    by_cases hmount : T.iMountpoint p.rip = true
    · rw [if_pos hmount, if_pos hmount]
      exact congrArg (Outcome.enters _) hnil
    · rw [if_neg hmount, if_neg hmount]
      exact congrArg (Outcome.found _) hnil
  · have hsome : p.spot.path ≠ [] := by
      intro hnil
      have hcons : p.spot.path = c :: strAt p.userPath (p.cp + 1) := strAt_cons hget hc
      rw [hnil] at hcons
      cases hcons
    obtain ⟨cp, hskip, hterm, -, hcp, -⟩ := skipWhile_at (· = slash) rfl h.ends
    obtain ⟨ep, hname, hterm', hep⟩ := getName_at (H := H) hterm
    have hstrip : stripped (stripped p.spot.path) = stripped p.spot.path :=
      List.dropWhile_eq_self_iff.mpr fun hlt => List.dropWhile_get_zero_not _ _ hlt
    replace hcp : strAt p.userPath cp = stripped p.spot.path := hcp
    have hcomp : component H (strAt p.userPath cp) = component H p.spot.path := by
      rw [hcp, component, component, first, first, hstrip]
    replace hep : strAt p.userPath ep = behind p.spot.path := by
      rw [hep, hcp, behind, behind, hstrip]
    rw [if_neg hc, hskip, inside_bind, hname, hcomp]
    have hlook : look H T q p.spot = _ := if_neg hsome
    change Simulates H T q (if component H p.spot.path = dot2 then _ else _) _
    by_cases hdot : component H p.spot.path = dot2
    · rw [if_pos hdot] at hlook ⊢
      cases hforb : T.forbidden p.rip with
      | some r =>
        have hforb' : T.forbidden p.spot.rip = some r := hforb
        rw [hforb'] at hlook
        exact simulates_stop hlook .done
      | none =>
        have hforb' : T.forbidden p.spot.rip = none := hforb
        rw [hforb'] at hlook
        dsimp only at hlook ⊢
        by_cases hroot : T.iNum p.rip = q.rootIno
        · rw [if_pos hroot]
          have hover := hlook.trans (if_pos hroot)
          refine simulates_over hover (matches_next ⟨h.length, hterm'⟩ ?_)
          rw [Place.spot, hep]
          rfl
        · rw [if_neg hroot]
          replace hlook := hlook.trans (if_neg hroot)
          by_cases hclimb : T.iNum p.rip = ROOT_INODE ∧ T.sIsRoot = false
          · rw [if_pos hclimb]
            exact simulates_stop (hlook.trans (if_pos hclimb))
              (matches_done (congrArg Outcome.leaves hcp))
          · rw [if_neg hclimb]
            exact descend_simulates h (hlook.trans (if_neg hclimb)) hcp hterm' hep
    · rw [if_neg hdot] at hlook ⊢
      exact descend_simulates h hlook hcp hterm' hep

def measure (H : PathHeaders) (s : Spot ι) : ℕ :=
  (H.SYMLOOP_MAX - s.symlinks) * (H.PATH_MAX + 1) + s.path.length

theorem behind_lt (hne : ∀ c ∈ path, c ≠ 0) (h : path ≠ []) : (behind path).length < path.length := by
  have hstrip : (stripped path).length ≤ path.length := List.length_dropWhile_le _ _
  have hbehind : (behind path).length ≤ (stripped path).length := List.length_dropWhile_le _ _
  cases hrest : stripped path with
  | nil =>
    rw [hrest] at hbehind
    exact lt_of_le_of_lt hbehind (List.length_pos_iff.mpr h)
  | cons c rest =>
    have hmem : c ∈ path :=
      (List.dropWhile_suffix (l := path) _).subset (show c ∈ stripped path by
        rw [hrest]
        exact List.mem_cons_self)
    have hslash : c ≠ slash := by
      have htest := List.head?_dropWhile_not (fun c : Byte => decide (c = slash)) path
      rw [show path.dropWhile _ = c :: rest from hrest] at htest
      simpa using htest
    have hshort : (behind path).length ≤ rest.length := by
      have hin : c ≠ 0 ∧ c ≠ slash := ⟨hne c hmem, hslash⟩
      rw [behind, hrest, List.dropWhile_cons_of_pos (by exact decide_eq_true hin)]
      exact List.length_dropWhile_le _ _
    rw [hrest, List.length_cons] at hstrip
    omega

theorem behind_le : (behind path).length ≤ path.length :=
  (List.length_dropWhile_le _ _).trans (List.length_dropWhile_le _ _)

theorem look_past (h : look H T q s = .past s') :
    s.path ≠ [] ∧ s'.path = behind s.path ∧ s'.symlinks = s.symlinks := by
  have hpath : s.path ≠ [] := by
    intro hnil
    rw [look, if_pos hnil] at h
    cases h
  rw [look, if_neg hpath] at h
  simp only [lookInto] at h
  grind

theorem follow_goes (h : follow H T s rip rest = .inl s') :
    s.symlinks + 1 ≤ H.SYMLOOP_MAX ∧ s'.path.length ≤ H.PATH_MAX ∧
      s'.symlinks = s.symlinks + 1 := by
  by_cases hmany : s.symlinks + 1 > H.SYMLOOP_MAX
  · rw [follow, if_pos hmany] at h
    cases h
  · rw [follow, if_neg hmany] at h
    cases hdata : T.blink rip with
    | none =>
      rw [hdata] at h
      cases h
    | some data =>
      rw [hdata] at h
      dsimp only at h
      split_ifs at h with hlong habs
      cases h
      have hcut := (List.takeWhile_prefix (l := linkText data (T.iSize rip).toNat ++ rest)
        fun c : Byte => decide (c ≠ 0)).length_le
      rw [List.length_append, linkText_length] at hcut
      exact ⟨by omega, by dsimp only; omega, rfl⟩

theorem step_measure (hne : ∀ c ∈ s.path, c ≠ 0) (h : step H T q s = .inl s') :
    measure H s' < measure H s := by
  rw [step] at h
  cases hlook : look H T q s with
  | stop o =>
    rw [hlook] at h
    cases h
  | past t =>
    rw [hlook] at h
    cases h
    obtain ⟨hpath, hbehind, hlinks⟩ := look_past hlook
    have hlt := behind_lt hne hpath
    rw [measure, measure, hlinks, hbehind]
    omega
  | link rip rest =>
    rw [hlook] at h
    obtain ⟨hmany, hshort, hlinks⟩ := follow_goes h
    rw [measure, measure, hlinks,
      show H.SYMLOOP_MAX - s.symlinks = H.SYMLOOP_MAX - (s.symlinks + 1) + 1 by omega,
      Nat.succ_mul]
    omega

theorem loop_resolves (h : p.Held H) (hsums : ∀ s, Reaches H T q p.spot s → Sums H T q s) :
    ∃ n, ∀ fuel, n ≤ fuel → ∃ a, loop H T q fuel p = .ok (some a) ∧
      Resolves H T q p.spot a.outcome := by
  induction hn : measure H p.spot using Nat.strong_induction_on generalizing p with
  | h n ih =>
    subst hn
    have hround := (round_simulates h).1 (hsums _ .refl)
    cases hr : round H T q p with
    | error e =>
      rw [hr] at hround
      cases hround
    | ok next =>
      rw [hr] at hround
      cases hstep : step H T q p.spot with
      | inl s' =>
        rw [hstep] at hround
        cases hround with
        | @next p' h' =>
          have hless := step_measure (fun c hc => strAt_ne hc) hstep
          obtain ⟨n, hloop⟩ := ih _ hless h' (fun s hs => hsums s (.head hstep hs)) rfl
          refine ⟨n + 1, fun fuel hfuel => ?_⟩
          obtain ⟨fuel, rfl⟩ := Nat.exists_eq_succ_of_ne_zero (show fuel ≠ 0 by omega)
          obtain ⟨a, hrun, hres⟩ := hloop fuel (by omega)
          exact ⟨a, by rw [loop, hr, ← hrun], .go hstep hres⟩
      | inr o =>
        rw [hstep] at hround
        cases hround with
        | @done a =>
          refine ⟨1, fun fuel hfuel => ⟨a, ?_, .stop hstep⟩⟩
          obtain ⟨fuel, rfl⟩ := Nat.exists_eq_succ_of_ne_zero (show fuel ≠ 0 by omega)
          rw [loop, hr]

theorem loop_leaves (hreach : Reaches H T q s s') (hno : ¬ Sums H T q s') (h : p.Held H)
    (hp : p.spot = s) : ∃ n, ∀ fuel, n ≤ fuel → loop H T q fuel p = .error .outside := by
  have hnow : ∀ {p : Place ι}, round H T q p = .error .outside →
      ∀ fuel, 1 ≤ fuel → loop H T q fuel p = .error .outside := by
    intro p hr fuel hfuel
    obtain ⟨fuel, rfl⟩ := Nat.exists_eq_succ_of_ne_zero (show fuel ≠ 0 by omega)
    rw [loop, hr]
  induction hreach using Relation.ReflTransGen.head_induction_on generalizing p with
  | refl =>
    subst hp
    exact ⟨1, hnow ((round_simulates h).2 hno)⟩
  | head hstep _ ih =>
    subst hp
    by_cases hsums : Sums H T q p.spot
    · have hround := (round_simulates h).1 hsums
      rw [hstep] at hround
      cases hr : round H T q p with
      | error e =>
        rw [hr] at hround
        cases hround
      | ok next =>
        rw [hr] at hround
        cases hround with
        | @next p' h' =>
          obtain ⟨n, hloop⟩ := ih h' rfl
          refine ⟨n + 1, fun fuel hfuel => ?_⟩
          obtain ⟨fuel, rfl⟩ := Nat.exists_eq_succ_of_ne_zero (show fuel ≠ 0 by omega)
          rw [loop, hr]
          exact hloop fuel (by omega)
    · exact ⟨1, hnow ((round_simulates h).2 hsums)⟩

theorem parses_of_sums {dirIno : ℕ} {userPath : List Byte}
    (hlen : userPath.length = H.PATH_MAX + 1) (hnul : Terminated userPath 0)
    (hsums : ∀ rip, start T dirIno = some rip →
      ∀ s, Reaches H T q ⟨rip, T.iMountpoint rip, strAt userPath 0, 0⟩ s → Sums H T q s) :
    Parses H T q dirIno userPath := by
  rw [Parses]
  cases hstart : start T dirIno with
  | none => exact ⟨0, fun fuel _ => ⟨_, by rw [parsePath, hstart], rfl⟩⟩
  | some rip =>
    have hheld : Place.Held H (⟨rip, T.iMountpoint rip, 0, userPath, 0⟩ : Place ι) := ⟨hlen, hnul⟩
    obtain ⟨n, hloop⟩ := loop_resolves hheld (hsums rip hstart)
    refine ⟨n, fun fuel hfuel => ?_⟩
    rw [parsePath, hstart]
    exact hloop fuel hfuel

theorem parsePath_iff {dirIno : ℕ} {userPath : List Byte}
    (hlen : userPath.length = H.PATH_MAX + 1) (hnul : Terminated userPath 0) :
    Parses H T q dirIno userPath ↔ ∀ rip, start T dirIno = some rip →
      ∀ s, Reaches H T q ⟨rip, T.iMountpoint rip, strAt userPath 0, 0⟩ s → Sums H T q s := by
  refine ⟨fun hparses rip hstart s hreach => ?_, parses_of_sums hlen hnul⟩
  have hheld : Place.Held H (⟨rip, T.iMountpoint rip, 0, userPath, 0⟩ : Place ι) := ⟨hlen, hnul⟩
  by_contra hno
  obtain ⟨n, hruns⟩ := hparses
  obtain ⟨m, hloop⟩ := loop_leaves hreach hno hheld rfl
  obtain ⟨a, hrun, -⟩ := hruns (max n m) (le_max_left n m)
  rw [parsePath, hstart] at hrun
  cases (hloop _ (le_max_right n m)).symm.trans hrun

theorem look_link (h : look H T q s = .link rip rest) : T.isLnk rip ∧ rest = behind s.path := by
  rw [look] at h
  simp only [lookInto] at h
  grind

theorem step_short (hshort : s.path.length ≤ H.PATH_MAX) (h : step H T q s = .inl s') :
    s'.path.length ≤ H.PATH_MAX := by
  rw [step] at h
  cases hlook : look H T q s with
  | stop o =>
    rw [hlook] at h
    cases h
  | past t =>
    rw [hlook] at h
    cases h
    rw [(look_past hlook).2.1]
    exact behind_le.trans hshort
  | link rip rest =>
    rw [hlook] at h
    exact (follow_goes h).2.1

theorem parsePath_lengths {dirIno : ℕ} {userPath : List Byte}
    (hlen : userPath.length = H.PATH_MAX + 1) (hnul : Terminated userPath 0)
    (hsize : ∀ rip, T.isLnk rip = true → 0 ≤ (T.iSize rip).toInt) :
    Parses H T q dirIno userPath := by
  refine parses_of_sums hlen hnul fun rip _ s hreach => ?_
  have hshort : s.path.length ≤ H.PATH_MAX := by
    induction hreach with
    | refl =>
      have hlt := hnul.lt
      dsimp only
      omega
    | tail _ hstep ih => exact step_short ih hstep
  intro link rest hlook _
  obtain ⟨hlnk, rfl⟩ := look_link hlook
  have hle : (behind s.path).length ≤ _ := behind_le.trans hshort
  have hmax := H.path_lt
  have hpos := hsize link hlnk
  have hcond := BitVec.toInt_eq_toNat_cond (T.iSize link)
  split_ifs at hcond <;> omega

end Walk

def linkTree (size : BitVec 32) : Tree ℕ where
  findInode := some
  iNum := id
  iNlinks _ := 1
  iMountpoint _ := false
  isLnk rip := rip = 2
  iSize _ := size
  blink _ := some fun _ => 108
  forbidden _ := none
  searchDir _ string := if string = [108] then .ok 2 else .error 2
  getInode := .ok
  sIsRoot := true

def minixPaths : PathHeaders where
  PATH_MAX := 255
  NAME_MAX := 255
  SYMLOOP_MAX := 16
  path_lt := by decide
  name_pos := by decide

def linkPath : List Byte := 108 :: List.replicate 255 0

theorem linkPath_length : linkPath.length = minixPaths.PATH_MAX + 1 := by
  rw [linkPath, List.length_cons, List.length_replicate]
  rfl

theorem linkPath_ends : Terminated linkPath 0 := by
  rw [Terminated, List.drop_zero, linkPath, List.mem_cons, List.mem_replicate]
  exact .inr ⟨by decide, rfl⟩

theorem parsePath_self : Parses minixPaths (linkTree 1) ⟨1, false⟩ 1 linkPath := by
  refine (parsePath_iff linkPath_length linkPath_ends).mpr fun rip hstart s hreach => ?_
  cases hstart
  have hself : ∃ k, s = ⟨1, false, [108], k⟩ := by
    induction hreach with
    | refl => exact ⟨0, rfl⟩
    | tail _ hstep ih =>
      obtain ⟨k, rfl⟩ := ih
      change follow minixPaths (linkTree 1) ⟨1, false, [108], k⟩ 2 [] = _ at hstep
      rw [follow] at hstep
      split at hstep
      · cases hstep
      · exact ⟨k + 1, (Sum.inl.inj hstep).symm⟩
  obtain ⟨k, rfl⟩ := hself
  intro rip rest hlook _
  cases hlook
  exact show ([] : List Byte).length + (1 : BitVec 32).toNat + 1 < 2 ^ 32 by decide

theorem parsePath_lengths_self : Parses minixPaths (linkTree 1) ⟨1, false⟩ 1 linkPath :=
  parsePath_lengths linkPath_length linkPath_ends fun _ _ => show 0 ≤ (1 : BitVec 32).toInt by decide

theorem parsePath_negative : ¬ Parses minixPaths (linkTree (-1)) ⟨1, false⟩ 1 linkPath := by
  intro hparses
  have hsums := (parsePath_iff linkPath_length linkPath_ends).mp hparses 1 rfl _ .refl
  exact absurd (hsums 2 [] rfl rfl) (by decide)

end Mfs.Paths
