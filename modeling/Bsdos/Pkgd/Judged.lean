import Bsdos.Pkgd.Tampered

namespace Bsdos.Pkgd
open Effects

variable {k : Codecs} {d : Disk} {path : String} {bytes : Bytes} {fileBytes : FileBytes} {manifest : ManifestJson}

/-- The members of an archive, and what its manifest lists. -/
def Reads (k : Codecs) (bytes : Bytes) (fileBytes : FileBytes) (manifest : ManifestJson) : Prop :=
  ∃ manifestBytes, members k bytes = .ok fileBytes ∧ fileBytes.lookup "manifest.json" = some manifestBytes ∧
    k.manifest manifestBytes = .ok manifest

/-- Every listed file is there as listed. -/
def Intact (k : Codecs) (bytes : Bytes) : Prop :=
  ∃ fileBytes manifest, Reads k bytes fileBytes manifest ∧ ∀ entry ∈ manifest.files, Listed k fileBytes entry

/-- The digest listed for a member can be cut after twelve bytes. -/
def Sliceable (k : Codecs) (bytes : Bytes) : Prop :=
  ∀ fileBytes manifest, Reads k bytes fileBytes manifest → ∀ entry ∈ manifest.files, entry.name ∈ fileBytes →
    ∃ listed, Text.bytePrefix 12 entry.sha256 = some listed

theorem matched_listed {entry : FileEntry} : matched k fileBytes entry = true ↔ Listed k fileBytes entry := by
  rw [matched, Option.any_eq_true]
  exact exists_congr fun data => and_congr_right fun _ => decide_eq_true_iff

theorem sliced_iff {entry : FileEntry} : sliced fileBytes entry = true ↔
    (entry.name ∈ fileBytes → ∃ listed, Text.bytePrefix 12 entry.sha256 = some listed) := by
  rw [sliced, Bool.or_eq_true, Option.isNone_iff_eq_none, Option.isSome_iff_exists, Finmap.lookup_eq_none]
  exact imp_iff_not_or.symm

theorem judge_reads (reads : Reads k bytes fileBytes manifest) : judge k path bytes =
    if manifest.files.all (sliced fileBytes) then verdict k path fileBytes manifest else .error .panicked := by
  obtain ⟨manifestBytes, decodes, listing, parsed⟩ := reads
  simp only [judge, decodes, listing, parsed]

theorem judge_unread (unread : ∀ fileBytes manifest, ¬ Reads k bytes fileBytes manifest) :
    ∃ e, judge k path bytes = .error (.failed e) := by
  unfold judge
  cases decodes : members k bytes with
  | error e => exact ⟨_, rfl⟩
  | ok fileBytes =>
    dsimp only
    cases listing : fileBytes.lookup "manifest.json" with
    | none => exact ⟨_, rfl⟩
    | some manifestBytes =>
      dsimp only
      cases parsed : k.manifest manifestBytes with
      | error e => exact ⟨_, rfl⟩
      | ok manifest => exact absurd ⟨manifestBytes, decodes, listing, parsed⟩ (unread fileBytes manifest)

theorem Reads.unique {fileBytes' : FileBytes} {manifest' : ManifestJson} (reads : Reads k bytes fileBytes manifest)
    (reads' : Reads k bytes fileBytes' manifest') : fileBytes' = fileBytes ∧ manifest' = manifest := by
  obtain ⟨manifestBytes, decodes, listing, parsed⟩ := reads
  obtain ⟨manifestBytes', decodes', listing', parsed'⟩ := reads'
  cases decodes.symm.trans decodes'
  cases listing.symm.trans listing'
  cases parsed.symm.trans parsed'
  exact ⟨rfl, rfl⟩

theorem judge_panicked_iff : judge k path bytes = .error .panicked ↔ ¬ Sliceable k bytes := by
  by_cases unread : ∀ fileBytes manifest, ¬ Reads k bytes fileBytes manifest
  · obtain ⟨e, failed⟩ := @judge_unread k path bytes unread
    rw [failed]
    exact ⟨nofun, fun wrong => absurd (fun fileBytes manifest reads => absurd reads (unread fileBytes manifest)) wrong⟩
  · obtain ⟨fileBytes, manifest, reads⟩ : ∃ fileBytes manifest, Reads k bytes fileBytes manifest := by
      by_contra none
      exact unread fun fileBytes manifest reads => none ⟨fileBytes, manifest, reads⟩
    have sliceable : Sliceable k bytes ↔ manifest.files.all (sliced fileBytes) = true := by
      rw [List.all_eq_true]
      constructor
      · exact fun sliceable entry member => sliced_iff.mpr (sliceable _ _ reads entry member)
      · intro all fileBytes' manifest' reads' entry member
        obtain ⟨rfl, rfl⟩ := reads.unique reads'
        exact sliced_iff.mp (all entry member)
    rw [judge_reads reads, sliceable]
    unfold verdict
    cases manifest.files.all (sliced fileBytes) with
    | false => simp
    | true => cases manifest.files.all (matched k fileBytes) <;> simp

theorem judge_ok (ok : judge k path bytes = .ok ()) : Intact k bytes := by
  by_contra torn
  have unread (fileBytes : FileBytes) (manifest : ManifestJson) : ¬ Reads k bytes fileBytes manifest := by
    intro reads
    rw [judge_reads reads] at ok
    unfold verdict at ok
    split at ok
    · split at ok
      · rename_i all
        exact torn ⟨fileBytes, manifest, reads, fun entry member => matched_listed.mp (List.all_eq_true.mp all entry member)⟩
      · cases ok
    · cases ok
  obtain ⟨e, failed⟩ := @judge_unread k path bytes unread
  rw [failed] at ok
  cases ok

theorem judge_intact (intact : Intact k bytes) : judge k path bytes = .ok () := by
  obtain ⟨fileBytes, manifest, reads, listed⟩ := intact
  have same : manifest.files.all (matched k fileBytes) = true :=
    List.all_eq_true.mpr fun entry member => matched_listed.mpr (listed entry member)
  have cut : manifest.files.all (sliced fileBytes) = true := by
    refine List.all_eq_true.mpr fun entry member => ?_
    obtain ⟨data, -, digest⟩ := listed entry member
    exact hashed_sliced fileBytes ⟨data, digest.symm⟩
  rw [judge_reads reads, if_pos cut, verdict, if_pos same]

theorem attentive_judges (there : d.files path = some bytes) :
    Ensures attentive () (runVerify k path).run d fun r _ => r = judge k path bytes := by
  have opens (r : Except String Bytes) (may : attentive.may () d (.openFile path) r = true) :=
    tool_opens there r (Bool.and_eq_true_iff.mp may).1
  refine (ensures_judge (S := attentive) (fun _ _ _ _ => rfl) opens).mono fun r u ended => ?_
  obtain ⟨-, ⟨e, may, -⟩ | ends⟩ := ended
  · have absent : (true && (d.files path).isNone) = true := may
    rw [there] at absent
    cases absent
  · exact ends

/-- A verification ends with a verdict, and with the right one, exactly if every digest that
is listed for a member can be cut after twelve bytes. -/
theorem verdict_given_iff (there : d.files path = some bytes) :
    (∃ moments r d', Exec attentive () (runVerify k path).run d moments r d') ∧
      (∀ moments r d', Exec attentive () (runVerify k path).run d moments r d' →
        (r = .ok () ∨ ∃ e, r = .error (.failed e)) ∧ (r = .ok () ↔ Intact k bytes)) ↔ Sliceable k bytes := by
  have judges := @attentive_judges k d path bytes there
  obtain ⟨moments, r, d', exec⟩ := Exec.possible (S := attentive) (a := ()) (runVerify k path).run runVerify_only
    attentive_answers d
  constructor
  · rintro ⟨-, all⟩
    by_contra torn
    have panicked := (judges moments r d' exec).trans (judge_panicked_iff.mpr torn)
    subst panicked
    rcases (all moments _ d' exec).1 with wrong | ⟨e, wrong⟩ <;> cases wrong
  · refine fun sliceable => ⟨⟨moments, r, d', exec⟩, fun moments r d' exec => ?_⟩
    have ends := judges moments r d' exec
    refine ⟨?_, ?_⟩
    · rcases r with (e | _) | _
      · exact Or.inr ⟨e, rfl⟩
      · exact absurd sliceable (judge_panicked_iff.mp ends.symm)
      · exact Or.inl rfl
    · rw [ends]
      exact ⟨judge_ok, judge_intact⟩

/-- A manifest.json that lists itself with this digest. -/
def selfManifest (digest : String) : String :=
  "\x7b\"files\":[\x7b\"name\":\"manifest.json\",\"sha256\":\"" ++ digest ++ "\"\x7d]\x7d"

/-- The gzipped archive of such a manifest alone, with a digest of eight digits. -/
def shortPackage : Bytes :=
  [31, 139, 8, 0, 0, 0, 0, 0, 2, 3, 203, 77, 204, 203, 76, 75, 45, 46, 209, 203, 42, 206, 207, 99, 160, 13, 48, 0,
   2, 51, 19, 19, 48, 13, 4, 232, 180, 129, 129, 57, 18, 27, 36, 110, 104, 96, 98, 98, 204, 160, 96, 192, 64, 7,
   80, 90, 92, 146, 88, 4, 180, 158, 97, 100, 130, 106, 165, 180, 204, 156, 212, 98, 37, 171, 232, 106, 165, 188,
   196, 220, 84, 37, 43, 165, 92, 228, 36, 161, 164, 163, 84, 156, 145, 104, 100, 106, 6, 148, 72, 53, 78, 50, 72,
   54, 49, 49, 82, 170, 141, 173, 101, 24, 5, 163, 96, 20, 140, 130, 81, 48, 164, 1, 0, 148, 180, 40, 140, 0, 8, 0,
   0]

def shortCodecs : Codecs where
  entries b :=
    if b = shortPackage then .ok [.ok ⟨.ok "manifest.json", .ok (bytesOf (selfManifest "e3b0c442"))⟩]
    else .error "invalid gzip header"
  manifest b :=
    if b = bytesOf (selfManifest "e3b0c442") then .ok ⟨[⟨"manifest.json", "e3b0c442"⟩]⟩
    else .error "expected value at line 1 column 1"
  utf8 _ := .error "invalid utf-8 sequence"
  toml _ := .error "TOML parse error"
  sha256 _ :=
    #v[56, 24, 94, 156, 73, 199, 73, 47, 173, 8, 52, 234, 149, 86, 53, 45, 123, 3, 188, 42, 87, 69, 57, 142, 166, 149, 1,
      97, 198, 7, 161, 186]

def shortDisk : Disk := ⟨fun path => if path = "short.jpk" then some shortPackage else none⟩

/-- The package whose manifest lists two members with their digests is found intact. -/
theorem verdict_given_foot :
    (∃ moments d', Exec attentive () (runVerify footCodecs "foot.jpk").run footDisk moments (.ok ()) d') ∧
      ∀ moments r d', Exec attentive () (runVerify footCodecs "foot.jpk").run footDisk moments r d' → r = .ok () := by
  obtain ⟨bytes, manifestBytes, there, reads⟩ := foot_holds
  have package : Reads footCodecs bytes (footBytes footManifest)
      ⟨[⟨"jpk.toml", footDigest⟩, ⟨"payload.tar", emptyDigest⟩]⟩ := ⟨manifestBytes, reads⟩
  have sliceable : Sliceable footCodecs bytes := by
    intro fileBytes manifest other entry member _
    obtain ⟨rfl, rfl⟩ := package.unique other
    exact (foot_listed entry member).2
  have intact : Intact footCodecs bytes := ⟨_, _, package, fun entry member => (foot_listed entry member).1⟩
  obtain ⟨⟨moments, r, d', exec⟩, all⟩ := (verdict_given_iff there).mpr sliceable
  have good : ∀ moments r d', Exec attentive () (runVerify footCodecs "foot.jpk").run footDisk moments r d' → r = .ok () :=
    fun moments r d' exec => (all moments r d' exec).2.mpr intact
  obtain rfl := good moments r d' exec
  exact ⟨⟨moments, d', exec⟩, good⟩

/-- A digest of eight digits, listed for a file that is there, ends the verification with a panic. -/
theorem short_digest_panics : shortDisk.files "short.jpk" = some shortPackage ∧
    ∃ moments d', Exec attentive () (runVerify shortCodecs "short.jpk").run shortDisk moments (.error .panicked) d' := by
  have there : shortDisk.files "short.jpk" = some shortPackage := by decide
  have torn : ¬ Sliceable shortCodecs shortPackage := by
    intro sliceable
    have reads : Reads shortCodecs shortPackage ((∅ : FileBytes).insert "manifest.json" (bytesOf (selfManifest "e3b0c442")))
        ⟨[⟨"manifest.json", "e3b0c442"⟩]⟩ := by
      refine ⟨bytesOf (selfManifest "e3b0c442"), ?_, Finmap.lookup_insert _, ?_⟩
      · simp only [members, shortCodecs, if_true]
        rfl
      · simp only [shortCodecs, if_true]
    obtain ⟨listed, cut⟩ := sliceable _ _ reads ⟨"manifest.json", "e3b0c442"⟩ (List.mem_singleton_self _) (by simp)
    have short : Text.bytePrefix 12 "e3b0c442" = none := by decide +kernel
    cases short.symm.trans cut
  obtain ⟨moments, r, d', exec⟩ := Exec.possible (S := attentive) (a := ()) (runVerify shortCodecs "short.jpk").run
    runVerify_only attentive_answers shortDisk
  have panicked := (attentive_judges there moments r d' exec).trans (judge_panicked_iff.mpr torn)
  subst panicked
  exact ⟨there, moments, d', exec⟩

end Bsdos.Pkgd
