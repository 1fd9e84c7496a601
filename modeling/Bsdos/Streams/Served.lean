import Bsdos.Streams.Calls

namespace Bsdos.Streams
open Effects

/-- The calls a task makes outside of starts and stops. -/
def Op.Aside : Op → Prop
  | .lock | .unlock | .streamsEntries | .tryWait _ | .status _ _ | .note (.died _) | .note (.restarting _)
  | .interval _ | .sleep _ | .registryLoad => True
  | _ => False

theorem listStreams_aside : listStreams.Only Op.Aside :=
  ⟨trivial, fun _ => ⟨trivial, fun _ => ⟨trivial, fun _ => trivial⟩⟩⟩

theorem findDead_aside : findDead.Only Op.Aside :=
  ⟨trivial, fun _ => ⟨trivial, fun entries =>
    (collectDead_only (fun _ => trivial) (fun _ _ => trivial) (fun _ => trivial) entries).bind fun _ =>
      ⟨trivial, fun _ => trivial⟩⟩⟩

/-! Every task is made of calls aside, of starts and of stops, so it follows whatever
discipline those keep to, and keeps whatever they keep. -/

section served
variable {Γ : Type} {P : Protocol Host Γ} {I : Γ → Prop} {γ : Γ}
  (aside : ∀ γ op, Op.Aside op → I γ → P.allows γ op ∧ ∀ r, I (P.next γ op r))
  (starts : ∀ cfg γ, I γ → (startStream cfg).run.Follows P (fun _ => I) γ)
  (stops : ∀ appId γ, I γ → (stopStream appId).run.Follows P (fun _ => I) γ)
include aside starts

theorem restoreStreams_follows (rest : I γ) : restoreStreams.Follows P (fun _ => I) γ := by
  have loading : listRegistry.run.Only Op.Aside := ⟨trivial, fun _ => trivial⟩
  refine (loading.keeps aside rest).bind fun r γ' rest => ?_
  cases r with
  | error e => exact rest
  | ok configs =>
    refine Prog.Follows.each (I := fun _ => I) rest fun cfg _ γ' rest => ?_
    exact (starts cfg γ' rest).bind fun _ _ rest => rest

include stops

theorem restartDead_follows (dead : String × StreamConfig) (rest : I γ) :
    (restartDead dead).Follows P (fun _ => I) γ := by
  refine (stops dead.1 γ rest).bind fun _ γ' rest => ?_
  have waits : (log (.restarting dead.1) >>= fun _ => sleep 1000).Only Op.Aside :=
    ⟨trivial, fun _ => ⟨trivial, fun _ => trivial⟩⟩
  exact (waits.keeps aside rest).bind fun _ γ' rest => (starts dead.2 γ' rest).bind fun _ _ rest => rest

theorem monitorTick_follows (rest : I γ) : monitorTick.Follows P (fun _ => I) γ := by
  have looks : (call (.interval 10) >>= fun _ => findDead).Only Op.Aside := ⟨trivial, fun _ => findDead_aside⟩
  refine (looks.keeps aside rest).bind fun dead γ' rest => ?_
  exact Prog.Follows.each (I := fun _ => I) rest fun dead _ γ' rest => restartDead_follows aside starts stops dead rest

theorem serve_follows {a : Actor} {request : Request} {program : Task Unit} (served : serve a request = some program)
    (rest : I γ) : program.Follows P (fun _ => I) γ := by
  have start (cfg : StreamConfig) : (do let _ ← (startStream cfg).run : Task Unit).Follows P (fun _ => I) γ :=
    (starts cfg γ rest).bind fun _ _ rest => rest
  have stop (appId : String) : (do let _ ← (stopStream appId).run : Task Unit).Follows P (fun _ => I) γ :=
    (stops appId γ rest).bind fun _ _ rest => rest
  have list : (do let _ ← listStreams : Task Unit).Follows P (fun _ => I) γ :=
    (listStreams_aside.keeps aside rest).bind fun _ _ rest => rest
  unfold serve at served
  split at served
  · exact Option.some.inj served ▸ start _
  · exact Option.some.inj served ▸ start _
  · exact Option.some.inj served ▸ start _
  · exact Option.some.inj served ▸ stop _
  · exact Option.some.inj served ▸ stop _
  · exact Option.some.inj served ▸ list
  · exact Option.some.inj served ▸ list
  · exact Option.some.inj served ▸ restoreStreams_follows aside starts rest
  · exact Option.some.inj served ▸ monitorTick_follows aside starts stops rest
  · cases served

end served

end Bsdos.Streams
