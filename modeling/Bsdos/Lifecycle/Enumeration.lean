import Bsdos.Effects.Replay
import Bsdos.Lifecycle.Basic
import Bsdos.Octets.Unicode

namespace Bsdos.Lifecycle
open Effects Octets

/-- `jail_get(2)` with the key `lastjid`; the name is written to a buffer of `NAME_CAP` bytes. -/
inductive JailOp
  | jailGet (lastjid : Int)
  deriving DecidableEq

def enoent : Nat := 2

def nameCap : Nat := 256

/-- The id of the jail and the buffer, or the errno. -/
abbrev JailCalls : Signature := ⟨JailOp, fun _ => Except Nat (Int × List UInt8)⟩

/-- A C string at the start of a buffer. -/
def cstrBufToString (buf : List UInt8) : String := fromUtf8Lossy (buf.takeWhile (· ≠ 0))

/-- The loop over the jails; `room` is how many more may be found before there are too many. -/
def listJailsFrom : Nat → Int → List JailInfo → Prog JailCalls (Except String (List JailInfo))
  | room, lastjid, jails => do
    let found : Except Nat (Int × List UInt8) ← Prog.perform (E := JailCalls) (.jailGet lastjid)
    match found with
    | .error errno =>
      if errno = enoent then return .ok jails
      else return .error ("jail_get(lastjid=" ++ toString lastjid ++ "): errno=" ++ toString errno)
    | .ok (jid, nameBuf) =>
      let jails := jails ++ [⟨jid, cstrBufToString nameBuf⟩]
      match room with
      | 0 => return .error "jail enumeration exceeded sane bound"
      | room + 1 => listJailsFrom room jid jails

def listJails : Prog JailCalls (Except String (List JailInfo)) := listJailsFrom 100000 0 []

/-- An active jail, with a name that fits in the buffer. -/
structure Jail where
  jid : Int
  name : List UInt8
  positive : 0 < jid
  plain : 0 ∉ name
  fits : name.length < nameCap

/-- The active jails, one for each id. -/
structure JailTable where
  jails : List Jail
  once : (jails.map Jail.jid).Nodup

def Jail.info (jail : Jail) : JailInfo := ⟨jail.jid, fromUtf8Lossy jail.name⟩

/-- The jail with the least id above this one, its name in the buffer; and `ENOENT` where there is none. -/
def JailTable.answers (table : JailTable) : (op : JailOp) → Except Nat (Int × List UInt8) → Bool
  | .jailGet lastjid, .ok (jid, nameBuf) =>
    table.jails.any (fun jail => jail.jid == jid && decide (jail.name ++ [0] <+: nameBuf)) &&
      decide (lastjid < jid) && decide (nameBuf.length = nameCap) &&
      table.jails.all fun jail => decide (jail.jid ≤ lastjid) || decide (jid ≤ jail.jid)
  | .jailGet lastjid, .error errno => errno != enoent || table.jails.all fun jail => decide (jail.jid ≤ lastjid)

/-- The kernel, as one enumeration meets it: between two calls the table may become any other. -/
def jailKernel : System JailCalls Unit (List JailTable) where
  Request := Empty
  Env := Empty
  may _ tables op answer := tables.head?.any fun table => table.answers op answer
  effect _ tables _ _ := tables.tail
  serve _ request := nomatch request
  droppable _ _ := false
  surroundings _ change := nomatch change

section Answers
variable {table : JailTable} {lastjid jid : Int} {nameBuf : List UInt8} {jail : Jail}

theorem cstrBufToString_name (front : jail.name ++ [0] <+: nameBuf) :
    cstrBufToString nameBuf = fromUtf8Lossy jail.name := by
  obtain ⟨rest, rfl⟩ := front
  have filled : ∀ b ∈ jail.name, decide (b ≠ 0) = true := fun b member =>
    decide_eq_true fun zero => jail.plain (zero ▸ member)
  rw [cstrBufToString, List.append_assoc, List.takeWhile_append_of_pos filled, List.singleton_append,
    List.takeWhile_cons_of_neg (by decide), List.append_nil]

theorem JailTable.same (one : jail ∈ table.jails) {jail' : Jail} (other : jail' ∈ table.jails) (same : jail.jid = jail'.jid) :
    jail = jail' := List.inj_on_of_nodup_map table.once one other same

/-- What the kernel answers is the next jail of the table. -/
theorem JailTable.answers_ok (answered : table.answers (.jailGet lastjid) (.ok (jid, nameBuf)) = true) :
    ∃ jail ∈ table.jails, jail.jid = jid ∧ cstrBufToString nameBuf = fromUtf8Lossy jail.name ∧ lastjid < jid ∧
      ∀ jail' ∈ table.jails, lastjid < jail'.jid → jid ≤ jail'.jid := by
  simp only [JailTable.answers, Bool.and_eq_true, List.any_eq_true, decide_eq_true_eq, beq_iff_eq, List.all_eq_true,
    Bool.or_eq_true] at answered
  obtain ⟨⟨⟨⟨jail, member, here, front⟩, above⟩, -⟩, least⟩ := answered
  exact ⟨jail, member, here, cstrBufToString_name front, above, fun jail' member later =>
    (least jail' member).resolve_left (Int.not_le.mpr later)⟩

theorem JailTable.answers_enoent (answered : table.answers (.jailGet lastjid) (.error enoent) = true) :
    ∀ jail ∈ table.jails, jail.jid ≤ lastjid := by
  simp only [JailTable.answers, bne_self_eq_false, Bool.false_or, List.all_eq_true, decide_eq_true_eq] at answered
  exact answered

end Answers

section Enumerated
variable {tables tables' : List JailTable} {moments : List (Moment JailCalls (List JailTable))} {room : Nat} {lastjid : Int}
  {jails listed : List JailInfo} {jail : Jail}

/-- The jails found so far: in the order of their ids, none above the cursor. -/
structure Found (lastjid : Int) (jails : List JailInfo) : Prop where
  ordered : jails.Pairwise fun a b => a.jid < b.jid
  below : ∀ info ∈ jails, info.jid ≤ lastjid

theorem Found.next (found : Found lastjid jails) {info : JailInfo} (above : lastjid < info.jid) :
    Found info.jid (jails ++ [info]) where
  ordered := List.pairwise_append.mpr ⟨found.ordered, List.pairwise_singleton _ _, fun a member b last => by
    rw [List.mem_singleton.mp last]
    exact Int.lt_of_le_of_lt (found.below a member) above⟩
  below a member := by
    rcases List.mem_append.mp member with old | last
    · exact Int.le_of_lt (Int.lt_of_le_of_lt (found.below a old) above)
    · rw [List.mem_singleton.mp last]

/-- One call of the loop, and what follows it. -/
theorem listJailsFrom_cases (exec : Exec jailKernel () (listJailsFrom room lastjid jails) tables moments (.ok listed) tables') :
    ∃ table later, tables = table :: later ∧
      ((listed = jails ∧ moments.length = 1 ∧ ∀ jail ∈ table.jails, jail.jid ≤ lastjid) ∨
      ∃ jail ∈ table.jails, lastjid < jail.jid ∧ (∀ jail' ∈ table.jails, lastjid < jail'.jid → jail.jid ≤ jail'.jid) ∧
        ∃ room' rest, room = room' + 1 ∧ moments.length = rest.length + 1 ∧
          Exec jailKernel () (listJailsFrom room' jail.jid (jails ++ [jail.info])) later rest (.ok listed) tables') := by
  unfold listJailsFrom at exec
  obtain ⟨r, rest, may, rfl, exec⟩ := exec
  cases tables with
  | nil => cases may
  | cons table later =>
    refine ⟨table, later, rfl, ?_⟩
    rcases (r : Except Nat (Int × List UInt8)) with errno | ⟨jid, nameBuf⟩
    · by_cases last : errno = enoent
      · subst last
        obtain ⟨rfl, same, -⟩ := exec
        exact .inl ⟨Except.ok.inj same, rfl, JailTable.answers_enoent may⟩
      · replace exec : Exec jailKernel () (if errno = enoent then (pure (.ok jails) : Prog JailCalls (Except String _))
            else pure (.error ("jail_get(lastjid=" ++ toString lastjid ++ "): errno=" ++ toString errno)))
            later rest (.ok listed) tables' := exec
        rw [if_neg last] at exec
        cases exec.2.1
    · obtain ⟨jail, member, rfl, named, above, least⟩ := JailTable.answers_ok may
      refine .inr ⟨jail, member, above, least, ?_⟩
      have info : (⟨jail.jid, cstrBufToString nameBuf⟩ : JailInfo) = jail.info := by rw [named, Jail.info]
      cases room with
      | zero => cases exec.2.1
      | succ room =>
        rw [← info]
        exact ⟨room, rest, rfl, rfl, exec⟩

/-- Where the enumeration goes on from some jails, it adds what is above them. -/
theorem listJailsFrom_listed (found : Found lastjid jails)
    (exec : Exec jailKernel () (listJailsFrom room lastjid jails) tables moments (.ok listed) []) :
    (listed.Pairwise fun a b => a.jid < b.jid) ∧ jails.length + moments.length = listed.length + 1 ∧
    (∀ info ∈ listed, info ∈ jails ∨ ∃ table ∈ tables, ∃ jail ∈ table.jails, jail.info = info) ∧
    ∀ jail, (∀ table ∈ tables, jail ∈ table.jails) → (jail.jid ≤ lastjid → jail.info ∈ jails) → jail.info ∈ listed := by
  induction room generalizing lastjid jails tables moments with
  | zero =>
    obtain ⟨table, later, rfl, ⟨rfl, one, none⟩ | ⟨_, _, _, _, _, _, absurd, _⟩⟩ := listJailsFrom_cases exec
    · exact ⟨found.ordered, by rw [one], fun info member => .inl member, fun jail lasting known =>
        known (none jail (lasting table List.mem_cons_self))⟩
    · cases absurd
  | succ room ih =>
    obtain ⟨table, later, rfl, ⟨rfl, one, none⟩ | ⟨next, member, above, least, _, rest, same, calls, onward⟩⟩ := listJailsFrom_cases exec
    · exact ⟨found.ordered, by rw [one], fun info member => .inl member, fun jail lasting known =>
        known (none jail (lasting table List.mem_cons_self))⟩
    · obtain rfl := Nat.succ.inj same
      obtain ⟨ordered, count, origin, complete⟩ := ih (found.next above : Found next.info.jid (jails ++ [next.info])) onward
      rw [List.length_append, List.length_singleton] at count
      refine ⟨ordered, by omega, fun info listed => ?_, fun jail lasting known => ?_⟩
      · rcases origin info listed with old | ⟨table', met, jail, here, same⟩
        · rcases List.mem_append.mp old with old | last
          · exact .inl old
          · rw [List.mem_singleton.mp last]
            exact .inr ⟨table, List.mem_cons_self, next, member, rfl⟩
        · exact .inr ⟨table', List.mem_cons_of_mem _ met, jail, here, same⟩
      · refine complete jail (fun table' met => lasting table' (List.mem_cons_of_mem _ met)) fun below => ?_
        have here := lasting table List.mem_cons_self
        by_cases old : jail.jid ≤ lastjid
        · exact List.mem_append_left _ (known old)
        · have same : jail.jid = next.jid := Int.le_antisymm below (least jail here (Int.lt_of_not_ge old))
          rw [table.same here member same]
          exact List.mem_append_right _ (List.mem_singleton_self _)

/-- However the jails come and go while they are listed: the list has them in the order of their ids,
each one was there at a call, and every jail that is there at all calls is in it; and there is one
call for each jail, and one that finds no other. -/
theorem listJails_listed (exec : Exec jailKernel () listJails tables moments (.ok listed) []) :
    (listed.Pairwise fun a b => a.jid < b.jid) ∧ moments.length = listed.length + 1 ∧
    (∀ info ∈ listed, ∃ table ∈ tables, ∃ jail ∈ table.jails, jail.info = info) ∧
    ∀ jail, (∀ table ∈ tables, jail ∈ table.jails) → jail.info ∈ listed := by
  obtain ⟨ordered, count, origin, complete⟩ := listJailsFrom_listed
    (⟨.nil, fun info member => absurd member List.not_mem_nil⟩ : Found 0 []) exec
  rw [List.length_nil, Nat.zero_add] at count
  refine ⟨ordered, count, fun info member => (origin info member).resolve_left List.not_mem_nil, fun jail lasting => ?_⟩
  exact complete jail lasting fun below => absurd jail.positive (Int.not_lt.mpr below)

end Enumerated

theorem letter_plain {letter : UInt8} (filled : 0 ≠ letter) : 0 ∉ [letter] := fun member =>
  filled (List.mem_singleton.mp member)

theorem letter_fits (letter : UInt8) : [letter].length < nameCap := by
  rw [List.length_singleton]
  decide

theorem letters_filled : (0 : UInt8) ≠ 97 ∧ (0 : UInt8) ≠ 98 ∧ (0 : UInt8) ≠ 99 := by decide

/-- A jail with a name of one letter. -/
def letterJail (n : Nat) {letter : UInt8} (filled : 0 ≠ letter) : Jail :=
  ⟨n.succ, [letter], Int.natCast_succ_pos n, letter_plain filled, letter_fits letter⟩

def jailA : Jail := letterJail 0 letters_filled.1

def jailB : Jail := letterJail 1 letters_filled.2.1

def jailC : Jail := letterJail 2 letters_filled.2.2

theorem jails_once : ([jailA, jailC].map Jail.jid).Nodup ∧ ([jailC, jailB, jailA].map Jail.jid).Nodup := by decide

def twoJails : JailTable := ⟨[jailA, jailC], jails_once.1⟩

def threeJails : JailTable := ⟨[jailC, jailB, jailA], jails_once.2⟩

/-- A jail that is there for one call only. -/
theorem listJails_listed_meanwhile : ∃ listed : List JailInfo, listed.map JailInfo.jid = [1, 2, 3] ∧
    (listed.Pairwise fun a b => a.jid < b.jid) ∧ 4 = listed.length + 1 ∧
    (∀ info ∈ listed, ∃ table ∈ [twoJails, threeJails, twoJails, twoJails], ∃ jail ∈ table.jails, jail.info = info) ∧
    ∀ jail, (∀ table ∈ [twoJails, threeJails, twoJails, twoJails], jail ∈ table.jails) → jail.info ∈ listed := by
  obtain ⟨moments, value, w', exec, checked⟩ := play_check (S := jailKernel) (a := ()) (p := listJails)
    (w := [twoJails, threeJails, twoJails, twoJails])
    [⟨.jailGet 0, Except.ok (1, 97 :: List.replicate 255 0)⟩, ⟨.jailGet 1, Except.ok (2, 98 :: List.replicate 255 0)⟩,
      ⟨.jailGet 2, Except.ok (3, 99 :: List.replicate 255 0)⟩, ⟨.jailGet 3, Except.error enoent⟩]
    (fun out => decide (out.1.length = 4 ∧ out.2.2.length = 0) && match out.2.1 with
      | .ok listed => decide (listed.map JailInfo.jid = [1, 2, 3])
      | .error _ => false)
    (by decide +kernel)
  obtain ⟨sizes, names⟩ := Bool.and_eq_true _ _ ▸ checked
  obtain ⟨calls, ended⟩ := of_decide_eq_true sizes
  cases value with
  | error => cases names
  | ok listed =>
    obtain rfl := List.length_eq_zero_iff.mp ended
    obtain ⟨ordered, count, rest⟩ := listJails_listed exec
    exact ⟨listed, of_decide_eq_true names, ordered, calls ▸ count, rest⟩

end Bsdos.Lifecycle
