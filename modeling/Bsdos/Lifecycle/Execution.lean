import Bsdos.Lifecycle.Served

namespace Bsdos.Lifecycle
open Effects

variable {policy : LifecyclePolicy} {a : Actor} {w w' : World} {moments : List (Moment Daemon World)}

/-- A signal of this kind reached a process. -/
def delivered (sig : Sig) : Moment Daemon World → Bool
  | ⟨_, .kill _ s, .ok ()⟩ => s = sig
  | _ => false

/-- An uninterrupted operation: its entry, then its body where the name is
accepted and nothing where it is not, then its return. -/
theorem exec_operation {c : Call} {body : String → Fallible String} {r : Except String String} :
    Exec (lifecycled policy) a (operation c body).run w moments r w' ↔
      ∃ inner, moments = ⟨w, .note (.invoked c), ()⟩ :: inner ++ [⟨w', .note (.returned c r.isOk), ()⟩] ∧
        ((ValidId c.jail ∧ Exec (lifecycled policy) a (body c.jail).run w inner r w') ∨
          ∃ e, validateJailId c.jail = .error e ∧ inner = [] ∧ r = .error e ∧ w' = w) := by
  have inner : ∀ {v u ms}, Exec (lifecycled policy) a (do body (← validateJailId c.jail) : Fallible String).run w ms v u ↔
      (ValidId c.jail ∧ Exec (lifecycled policy) a (body c.jail).run w ms v u) ∨
        ∃ e, validateJailId c.jail = .error e ∧ ms = [] ∧ v = .error e ∧ u = w := by
    intro v u ms
    rw [run_tryBind, run_liftExcept, Prog.ret_bind]
    cases checked : validateJailId c.jail with
    | ok id =>
      cases validateJailId_ok checked
      simp [ValidId, checked]
    | error e => simp [ValidId, checked]
  have unfolded : (operation c body).run = .call (.note (.invoked c)) fun _ =>
      (do body (← validateJailId c.jail) : Fallible String).run >>= fun r =>
        .call (.note (.returned c r.isOk)) fun _ => .ret r := rfl
  rw [unfolded]
  constructor
  · rintro ⟨⟨⟩, rest, _, rfl, exec⟩
    obtain ⟨first, v, u, last, front, ⟨⟨⟩, tail, _, rfl, rfl, rfl, rfl⟩, rfl⟩ := exec_bind.mp exec
    exact ⟨first, rfl, inner.mp front⟩
  · rintro ⟨ms, rfl, body⟩
    refine ⟨(), _, rfl, rfl, exec_bind.mpr ⟨ms, r, w', _, inner.mpr body, ⟨(), [], rfl, rfl, rfl, rfl, rfl⟩, rfl⟩⟩

theorem exec_run {program : String} {args : List String} {value : Except String String} :
    Exec (lifecycled policy) a (run program args).run w moments value w' ↔
      ∃ r : Except String Output, moments = [⟨w, .output program args, r⟩] ∧
        value = outcome program r ∧ w' = w := by
  rw [run_eq]
  constructor
  · rintro ⟨r, rest, _, rfl, rfl, rfl, rfl⟩
    exact ⟨r, rfl, rfl, rfl⟩
  · rintro ⟨r, rfl, rfl, rfl⟩
    exact ⟨r, [], rfl, rfl, rfl, rfl, rfl⟩

theorem exec_signalPids {sig : Sig} {pids : List Int} {before n : Nat}
    (exec : Exec (lifecycled policy) a (signalPids sig pids before) w moments n w') :
    n = before + (moments.filter (delivered sig)).length ∧
      (n = before → w' = w) ∧ ∀ m ∈ moments, ∃ pid, m.op = .kill pid sig := by
  induction pids generalizing before w moments with
  | nil =>
    obtain ⟨rfl, rfl, rfl⟩ := exec
    simp
  | cons pid pids ih =>
    obtain ⟨r, rest, _, rfl, exec⟩ := exec
    cases r with
    | ok u =>
      obtain ⟨count, _, kills⟩ := ih exec
      refine ⟨?_, ?_, ?_⟩
      · simp only [List.filter_cons, delivered, decide_true, if_true, List.length_cons]
        omega
      · intro same; omega
      · simpa using kills
    | error e =>
      obtain ⟨count, same, kills⟩ := ih exec
      refine ⟨?_, same, ?_⟩
      · simpa only [List.filter_cons, delivered, Bool.false_eq_true, if_false] using count
      · simpa using kills

/-- Signalling a jail reports the deliveries, and where there are none it changed nothing. -/
theorem exec_signalJailPids {name : String} {sig : Sig} {r : Except String Nat}
    (exec : Exec (lifecycled policy) a (signalJailPids name sig).run w moments r w') :
    r.toOption.getD 0 = (moments.filter (delivered sig)).length ∧ (r.toOption.getD 0 = 0 → w' = w) := by
  rcases exec_tryBind.mp exec with ⟨_, jid, _, _, ⟨_, _, _, rfl, rfl, _, rfl⟩, listed, rfl⟩ |
    ⟨e, ⟨_, _, _, rfl, rfl, _, rfl⟩, rfl⟩
  · rcases exec_tryBind.mp listed with ⟨_, pids, _, _, ⟨_, _, _, rfl, rfl, _, rfl⟩, signalled, rfl⟩ |
      ⟨e, ⟨_, _, _, rfl, rfl, _, rfl⟩, rfl⟩
    · rw [run_liftProg] at signalled
      obtain ⟨kills, n, _, _, loop, ⟨rfl, rfl, rfl⟩, rfl⟩ := exec_bind.mp signalled
      obtain ⟨count, same, _⟩ := exec_signalPids loop
      rw [Nat.zero_add] at count
      simp only [List.singleton_append, List.append_nil, List.filter_cons, delivered, Bool.false_eq_true, if_false]
      exact ⟨count, same⟩
    · simp [delivered, Except.toOption]
  · simp [delivered, Except.toOption]

end Bsdos.Lifecycle
