import Bsdos.Effects.Ensures
import Bsdos.Pkgd.Verified

namespace Bsdos.Pkgd
open Effects

variable {k : Codecs} {path : String} {W : Type} {S : System Tool Unit W} {w : W}

theorem hexDigit_inj {a b : Nat} (small : a < 16) (small' : b < 16) (same : Text.hexDigit a = Text.hexDigit b) :
    a = b := by
  have distinct : ∀ a < 16, ∀ b < 16, Text.hexDigit a = Text.hexDigit b → a = b := by decide
  exact distinct a small b small' same

theorem hexDigit_size {a : Nat} (small : a < 16) : (Text.hexDigit a).utf8Size = 1 := by
  have ascii : ∀ a < 16, (Text.hexDigit a).utf8Size = 1 := by decide
  exact ascii a small

/-- The two digits of each byte. -/
def hexChars (bytes : Bytes) : List Char :=
  bytes.flatMap fun b => [Text.hexDigit (b.toNat / 16), Text.hexDigit (b.toNat % 16)]

theorem hexChars_inj {bytes bytes' : Bytes} (same : hexChars bytes = hexChars bytes') : bytes = bytes' := by
  induction bytes generalizing bytes' with
  | nil =>
    cases bytes' with
    | nil => rfl
    | cons => cases same
  | cons b bytes ih =>
    cases bytes' with
    | nil => cases same
    | cons b' bytes' =>
      simp only [hexChars, List.flatMap_cons, List.cons_append, List.nil_append, List.cons.injEq] at same
      obtain ⟨high, low, rest⟩ := same
      have bound := b.toNat_lt
      have bound' := b'.toNat_lt
      have highs := hexDigit_inj (by omega) (by omega) high
      have lows := hexDigit_inj (by omega) (by omega) low
      have equal : b.toNat = b'.toNat := by omega
      rw [UInt8.toNat_inj.mp equal, ih rest]

theorem sha256Hex_inj {data data' : Bytes} (same : sha256Hex k data = sha256Hex k data') :
    k.sha256 data = k.sha256 data' := by
  have chars : hexChars (k.sha256 data).toList = hexChars (k.sha256 data').toList := String.ofList_injective same
  exact Vector.toList_inj.mp (hexChars_inj chars)

theorem bytePrefixChars_ascii {n : Nat} {cs : List Char} (ascii : ∀ c ∈ cs, c.utf8Size = 1) (long : n ≤ cs.length) :
    Text.bytePrefixChars n cs = some (cs.take n) := by
  induction cs generalizing n with
  | nil =>
    have empty : n = 0 := by simpa using long
    subst empty
    rfl
  | cons c cs ih =>
    cases n with
    | zero => rfl
    | succ n =>
      have one := ascii c (List.mem_cons_self ..)
      have shorter : n ≤ cs.length := by simpa using long
      have rest := ih (fun c' later => ascii c' (List.mem_cons_of_mem _ later)) shorter
      simp only [Text.bytePrefixChars, one, Nat.add_sub_cancel, rest, Option.map_some, List.take_succ_cons]
      rw [if_pos (by omega)]

/-- A hexadecimal digest can be cut after twelve digits. -/
theorem digest_cut (data : Bytes) : ∃ listed, Text.bytePrefix 12 (sha256Hex k data) = some listed := by
  have chars : (sha256Hex k data).toList = hexChars (k.sha256 data).toList := String.toList_ofList
  have ascii : ∀ c ∈ hexChars (k.sha256 data).toList, c.utf8Size = 1 := by
    intro c member
    obtain ⟨b, _, member⟩ := List.mem_flatMap.mp member
    have bound := b.toNat_lt
    rcases List.mem_cons.mp member with rfl | member
    · exact hexDigit_size (by omega)
    · rw [List.mem_singleton.mp member]
      exact hexDigit_size (by omega)
  have long : 12 ≤ (hexChars (k.sha256 data).toList).length := by
    simp only [hexChars, List.length_flatMap, List.length_cons, List.length_nil, Vector.length_toList,
      List.map_const', List.sum_replicate]
    decide
  unfold Text.bytePrefix
  rw [chars, bytePrefixChars_ascii ascii long]
  exact ⟨_, rfl⟩

/-- Whether a tracked file is there as listed. -/
def matched (k : Codecs) (fileBytes : FileBytes) (entry : FileEntry) : Bool :=
  (fileBytes.lookup entry.name).any fun data => sha256Hex k data = entry.sha256

theorem matched_own {fileBytes : FileBytes} {name : String} {data : Bytes} (found : fileBytes.lookup name = some data) :
    matched k fileBytes ⟨name, sha256Hex k data⟩ = true := by
  rw [matched, found]
  exact decide_eq_true rfl

/-- How a verification ends, given what it found. -/
def verdict (k : Codecs) (path : String) (fileBytes : FileBytes) (manifest : ManifestJson) : Except Stop Unit :=
  if manifest.files.all (matched k fileBytes) then .ok ()
  else .error (.failed (.verify ("one or more hash mismatches in " ++ path)))

/-- Where the digest of a file that is there is reported, it can be. -/
def sliced (fileBytes : FileBytes) (entry : FileEntry) : Bool :=
  (fileBytes.lookup entry.name).isNone || (Text.bytePrefix 12 entry.sha256).isSome

theorem hashed_sliced (fileBytes : FileBytes) {entry : FileEntry} (hashed : ∃ data, entry.sha256 = sha256Hex k data) :
    sliced fileBytes entry = true := by
  obtain ⟨data, digest⟩ := hashed
  obtain ⟨listed, cut⟩ := digest_cut (k := k) data
  rw [sliced, digest, cut, Option.isSome_some, Bool.or_true]

/-- How the verification of an archive ends, given its bytes. -/
def judge (k : Codecs) (path : String) (bytes : Bytes) : Except Stop Unit :=
  match members k bytes with
  | .error e => .error (.failed e)
  | .ok fileBytes =>
    match fileBytes.lookup "manifest.json" with
    | none => .error (.failed (.verify "manifest.json not found in archive"))
    | some manifestBytes =>
      match k.manifest manifestBytes with
      | .error e => .error (.failed (.json ("parse manifest.json: " ++ e)))
      | .ok manifest =>
        if manifest.files.all (sliced fileBytes) then verdict k path fileBytes manifest else .error .panicked

theorem ensures_cut {s : String} (short : Text.bytePrefix 12 s = none) :
    Ensures S () (firstTwelve s).run w fun r w' => r = .error .panicked ∧ w' = w := by
  unfold firstTwelve
  rw [short]
  exact .ret ⟨rfl, rfl⟩

theorem ensures_firstTwelve {s listed : String} (cut : Text.bytePrefix 12 s = some listed) :
    Ensures S () (firstTwelve s).run w fun r w' => r = .ok listed ∧ w' = w := by
  unfold firstTwelve
  rw [cut]
  exact .ret ⟨rfl, rfl⟩

section quiet
variable (quiet : ∀ u op r, Op.Looks op → S.effect () u op r = u)
include quiet

theorem ensures_print (line : String) : Ensures S () (print line).run w fun r w' => r = .ok () ∧ w' = w :=
  .call fun r _ => .ret ⟨rfl, quiet w _ r trivial⟩

theorem ensures_eprint (line : String) : Ensures S () (eprint line).run w fun r w' => r = .ok () ∧ w' = w :=
  .call fun r _ => .ret ⟨rfl, quiet w _ r trivial⟩

theorem ensures_verifyEntry (fileBytes : FileBytes) (entry : FileEntry) :
    Ensures S () (verifyEntry k fileBytes entry).run w fun r w' =>
      r = (if sliced fileBytes entry then .ok (matched k fileBytes entry) else .error .panicked) ∧ w' = w := by
  unfold verifyEntry matched sliced
  cases found : fileBytes.lookup entry.name with
  | none => exact (ensures_eprint quiet _).through (.ret ⟨rfl, rfl⟩)
  | some data =>
    cases cut : Text.bytePrefix 12 entry.sha256 with
    | none =>
      exact (ensures_cut cut).fails ⟨rfl, rfl⟩
    | some listed =>
      refine (ensures_firstTwelve cut).through ?_
      by_cases same : sha256Hex k data = entry.sha256
      · simp only [same, if_true, Option.any_some, decide_true]
        exact (ensures_print quiet _).through (.ret ⟨rfl, rfl⟩)
      · obtain ⟨got, cut'⟩ := digest_cut (k := k) data
        simp only [same, if_false, Option.any_some, decide_false]
        refine (ensures_firstTwelve cut').through ?_
        exact (ensures_eprint quiet _).through (.ret ⟨rfl, rfl⟩)

/-- The check goes through all entries, unless a digest that is to be reported cannot be cut. -/
theorem ensures_verifyEntries (fileBytes : FileBytes) (entries : List FileEntry) (allOk : Bool) :
    Ensures S () (verifyEntries k fileBytes entries allOk).run w fun r w' =>
      r = (if entries.all (sliced fileBytes) then .ok (allOk && entries.all (matched k fileBytes)) else .error .panicked) ∧
        w' = w := by
  induction entries generalizing allOk with
  | nil => exact .ret ⟨by rw [List.all_nil, List.all_nil, if_pos rfl, Bool.and_true], rfl⟩
  | cons entry entries ih =>
    have first := ensures_verifyEntry (k := k) (w := w) quiet fileBytes entry
    rw [List.all_cons, List.all_cons]
    cases cut : sliced fileBytes entry with
    | false =>
      rw [cut, if_neg Bool.false_ne_true] at first
      exact first.fails ⟨rfl, rfl⟩
    | true =>
      rw [cut, if_pos rfl] at first
      refine first.through ((ih _).mono fun r w' ended => ?_)
      rwa [Bool.and_assoc] at ended

/-- The archive was read, unless it could not be opened. -/
theorem ensures_readArchive {bytes : Bytes}
    (opens : ∀ r, S.may () w (.openFile path) r = true → r = .ok bytes ∨ ∃ e, r = .error e) :
    Ensures S () (readArchive k path).run w fun r w' => w' = w ∧
      ((∃ e, S.may () w (.openFile path) (.error e) = true ∧
        r = .error (.failed (.io ("cannot open " ++ path ++ ": " ++ e)))) ∨ r = (members k bytes).mapError .failed) := by
  refine .call fun r may => ?_
  rw [quiet w _ r trivial]
  rcases opens r may with rfl | ⟨e, rfl⟩
  · refine Ensures.through (v := bytes) (x := mapErr _ (.ok bytes)) (.ret ⟨rfl, rfl⟩) ?_
    cases members k bytes <;> exact .ret ⟨rfl, Or.inr rfl⟩
  · exact .ret ⟨rfl, Or.inl ⟨e, may, rfl⟩⟩

/-- A verification that opens its archive ends as its contents say. -/
theorem ensures_judge {bytes : Bytes}
    (opens : ∀ r, S.may () w (.openFile path) r = true → r = .ok bytes ∨ ∃ e, r = .error e) :
    Ensures S () (runVerify k path).run w fun r w' => w' = w ∧
      ((∃ e, S.may () w (.openFile path) (.error e) = true ∧
        r = .error (.failed (.io ("cannot open " ++ path ++ ": " ++ e)))) ∨ r = judge k path bytes) := by
  refine (ensures_readArchive quiet opens).tryBind (fun contents u ended => ?_) (fun e u ended => ?_)
  · obtain ⟨rfl, ⟨_, _, wrong⟩ | same⟩ := ended
    · cases wrong
    · unfold judge
      cases decodes : members k bytes with
      | error e =>
        rw [decodes] at same
        cases same
      | ok contents' =>
        rw [decodes] at same
        cases same
        dsimp only
        cases contents.lookup "manifest.json" with
        | none => exact Ensures.fails (.ret ⟨rfl, rfl⟩) ⟨rfl, Or.inr rfl⟩
        | some manifestBytes =>
          refine Ensures.through (v := manifestBytes) (.ret ⟨rfl, rfl⟩) ?_
          dsimp only
          cases k.manifest manifestBytes with
          | error e => exact Ensures.fails (.ret ⟨rfl, rfl⟩) ⟨rfl, Or.inr rfl⟩
          | ok manifest =>
            refine Ensures.through (v := manifest) (.ret ⟨rfl, rfl⟩) ?_
            have checked := ensures_verifyEntries (k := k) (w := u) quiet contents manifest.files true
            dsimp only
            cases cut : manifest.files.all (sliced contents) with
            | false =>
              rw [cut, if_neg Bool.false_ne_true] at checked
              exact checked.fails ⟨rfl, Or.inr rfl⟩
            | true =>
              rw [cut, if_pos rfl, Bool.true_and] at checked
              refine checked.through ((ensures_print quiet _).through ?_)
              unfold verdict
              cases manifest.files.all (matched k contents) with
              | true => exact (ensures_print quiet _).mono fun r w' ended => ⟨ended.2, Or.inr ended.1⟩
              | false => exact .ret ⟨rfl, Or.inr rfl⟩
  · obtain ⟨rfl, ⟨e', may, same⟩ | failed⟩ := ended
    · cases same
      exact ⟨rfl, Or.inl ⟨e', may, rfl⟩⟩
    · refine ⟨rfl, Or.inr ?_⟩
      unfold judge
      cases decodes : members k bytes with
      | error e' =>
        rw [decodes] at failed
        cases failed
        rfl
      | ok contents =>
        rw [decodes] at failed
        cases failed

/-- A verification that opens its archive ends with what the listed digests say of it. -/
theorem ensures_runVerify {bytes manifestBytes : Bytes} {fileBytes : FileBytes} {manifest : ManifestJson}
    (opens : ∀ r, S.may () w (.openFile path) r = true → r = .ok bytes ∨ ∃ e, r = .error e)
    (decodes : members k bytes = .ok fileBytes) (listing : fileBytes.lookup "manifest.json" = some manifestBytes)
    (parsed : k.manifest manifestBytes = .ok manifest)
    (hashed : ∀ entry ∈ manifest.files, ∃ data, entry.sha256 = sha256Hex k data) :
    Ensures S () (runVerify k path).run w fun r w' => w' = w ∧
      ((∃ e, S.may () w (.openFile path) (.error e) = true ∧
        r = .error (.failed (.io ("cannot open " ++ path ++ ": " ++ e)))) ∨ r = verdict k path fileBytes manifest) := by
  have cut : manifest.files.all (sliced fileBytes) = true := List.all_eq_true.mpr fun entry member =>
    hashed_sliced fileBytes (hashed entry member)
  have judged : judge k path bytes = verdict k path fileBytes manifest := by
    simp only [judge, decodes, listing, parsed, cut, if_true]
  rw [← judged]
  exact ensures_judge quiet opens

end quiet

end Bsdos.Pkgd
