import Bsdos.Pkgd.Judged
import Bsdos.Pkgd.RoundTrip

namespace Bsdos.Pkgd
open Effects Files

variable {k : Codecs} {lib : Libraries Nodes} {m : Machine} {path root : String} {archive : Bytes}

/-- Every call can fail; a directory is not made where a file is in the way. -/
def Machine.admits (m : Machine) : (op : Op) → op.Ret → Bool
  | .openFile path, .ok bytes => m.shows path (· = .file bytes)
  | .createDirAll path, .ok () =>
    (resolve m.cwd path).inits.all fun above => m.nodes.lookup above ∈ [none, some .dir, some .other]
  | _, _ => true

/-- The tool, alone with a file system. -/
def hosted (lib : Libraries Nodes) : System Tool Unit Machine where
  Request := Empty
  Env := Empty
  may := fun _ => Machine.admits
  effect := fun _ => Machine.installed lib
  serve := fun _ request => nomatch request
  droppable := fun _ _ => false
  surroundings := fun _ change => nomatch change

theorem hosted_quiet (u : Machine) (op : Op) (r : op.Ret) (looks : Op.Looks op) : (hosted lib).effect () u op r = u :=
  @installer_quiet lib u op r looks

theorem hosted_opens (there : m.node path = some (.file archive)) (r : Except String Bytes)
    (may : (hosted lib).may () m (.openFile path) r = true) : r = .ok archive ∨ ∃ e, r = .error e := by
  cases r with
  | error e => exact Or.inr ⟨e, rfl⟩
  | ok bytes => exact Or.inl (@installer_opens lib _ _ _ there (.ok bytes) may)

/-- A package that verifies, with a descriptor that is accepted. -/
structure Offers (k : Codecs) (path : String) (archive : Bytes) (fileBytes : FileBytes) (descriptor : JpkDescriptor) :
    Prop where
  verified : judge k path archive = .ok ()
  decodes : members k archive = .ok fileBytes
  described : ∃ tomlBytes, fileBytes.lookup "jpk.toml" = some tomlBytes ∧ Describes k tomlBytes descriptor
  valid : descriptor.validate = .ok ()

/-- The machine after the directory of a package has been made. -/
def Machine.prepared (m : Machine) (root : String) (descriptor : JpkDescriptor) : Machine :=
  { m with nodes := mkdirs m.nodes (resolve m.cwd (join root descriptor.header.id)) }

/-- How an installation can end. -/
inductive Ends (S : System Tool Unit Machine) (k : Codecs) (m : Machine) (path root : String) (archive : Bytes) :
    Except Stop Unit → Machine → Prop
  | unopened (e : String) (stop : Stop) : S.may () m (.openFile path) (.error e) = true →
      Ends S k m path root archive (.error stop) m
  | refused (stop : Stop) : (∀ fileBytes descriptor, ¬ Offers k path archive fileBytes descriptor) →
      Ends S k m path root archive (.error stop) m
  | blocked (fileBytes : FileBytes) (descriptor : JpkDescriptor) (e msg : String) (u : Machine) :
      Offers k path archive fileBytes descriptor →
      S.may () m (.createDirAll (join root descriptor.header.id)) (.error e) = true →
      Ends S k m path root archive (.error (.failed (.install msg))) u
  | stranded (fileBytes : FileBytes) (descriptor : JpkDescriptor) (msg : String) :
      Offers k path archive fileBytes descriptor → "payload.tar" ∉ fileBytes →
      Ends S k m path root archive (.error (.failed (.archive msg))) (m.prepared root descriptor)
  | failed (fileBytes : FileBytes) (descriptor : JpkDescriptor) (msg : String) (u : Machine) :
      Offers k path archive fileBytes descriptor → "payload.tar" ∈ fileBytes →
      Ends S k m path root archive (.error (.failed (.install msg))) u
  | done (fileBytes : FileBytes) (descriptor : JpkDescriptor) (u : Machine) :
      Offers k path archive fileBytes descriptor → "payload.tar" ∈ fileBytes → Ends S k m path root archive (.ok ()) u

section spec
variable {S : System Tool Unit Machine} {w : Machine}

/-- A descriptor is parsed and accepted, unless it is not one or not a valid one. -/
theorem ensures_parseDescriptor (tomlBytes : Bytes) :
    Ensures S () (parseDescriptor k tomlBytes).run w fun r u => u = w ∧
      ((∃ descriptor, r = .ok descriptor ∧ Describes k tomlBytes descriptor ∧ descriptor.validate = .ok ()) ∨
        (∃ stop, r = .error stop) ∧ ∀ descriptor, Describes k tomlBytes descriptor → descriptor.validate ≠ .ok ()) := by
  unfold parseDescriptor Describes
  cases k.utf8 tomlBytes with
  | error e => exact Ensures.fails (.ret ⟨rfl, rfl⟩) ⟨rfl, Or.inr ⟨⟨_, rfl⟩, fun _ ⟨_, read, _⟩ => nomatch read⟩⟩
  | ok text =>
    refine Ensures.through (v := text) (.ret ⟨rfl, rfl⟩) ?_
    cases decoded : k.toml text with
    | error e =>
      refine Ensures.fails (.ret ⟨rfl, rfl⟩) ⟨rfl, Or.inr ⟨⟨_, rfl⟩, ?_⟩⟩
      rintro descriptor ⟨text', read, decoded'⟩
      cases read
      cases decoded.symm.trans decoded'
    | ok parsed =>
      refine Ensures.through (v := parsed) (.ret ⟨rfl, rfl⟩) ?_
      cases valid : parsed.validate with
      | error e =>
        refine .ret ⟨rfl, Or.inr ⟨⟨_, rfl⟩, ?_⟩⟩
        rintro descriptor ⟨text', read, decoded'⟩ accepted
        cases read
        cases decoded.symm.trans decoded'
        cases valid.symm.trans accepted
      | ok _ => exact .ret ⟨rfl, Or.inl ⟨parsed, rfl, ⟨text, rfl, decoded⟩, valid⟩⟩

/-- An installation of an archive that is there. -/
theorem ensures_runInstall (quiet : ∀ u op r, Op.Looks op → S.effect () u op r = u)
    (opens : ∀ r, S.may () m (.openFile path) r = true → r = .ok archive ∨ ∃ e, r = .error e)
    (makes : ∀ path, S.effect () m (.createDirAll path) (Except.ok () : Except String Unit) =
      { m with nodes := mkdirs m.nodes (resolve m.cwd path) }) :
    Ensures S () (runInstall k path root).run m (Ends S k m path root archive) := by
  refine (ensures_print quiet _).through ?_
  refine (ensures_judge quiet opens).tryBind (fun _ u ended => ?_) fun stop u ended => ?_
  rotate_left
  · obtain ⟨rfl, ⟨e, may, -⟩ | verified⟩ := ended
    · exact .unopened e stop may
    · refine .refused stop fun fileBytes descriptor offers => ?_
      cases verified.trans offers.verified
  obtain ⟨rfl, ⟨_, _, wrong⟩ | verified⟩ := ended
  · cases wrong
  refine (ensures_readArchive (k := k) quiet opens).tryBind (fun fileBytes u' ended => ?_) fun stop u' ended => ?_
  rotate_left
  · obtain ⟨rfl, ⟨e, may, -⟩ | decoded⟩ := ended
    · exact .unopened e stop may
    · refine .refused stop fun fileBytes descriptor offers => ?_
      rw [offers.decodes] at decoded
      cases decoded
  obtain ⟨rfl, ⟨_, _, wrong⟩ | decoded⟩ := ended
  · cases wrong
  have decodes : members k archive = .ok fileBytes := Results.mapError_ok.mp decoded.symm
  have these {fileBytes' : FileBytes} {descriptor : JpkDescriptor} (offers : Offers k path archive fileBytes' descriptor) :
      fileBytes' = fileBytes := Except.ok.inj (offers.decodes.symm.trans decodes)
  cases toml : fileBytes.lookup "jpk.toml" with
  | none =>
    refine Ensures.fails (.ret ⟨rfl, rfl⟩) (.refused _ fun fileBytes' descriptor offers => ?_)
    obtain ⟨tomlBytes, found, -⟩ := offers.described
    rw [these offers, toml] at found
    cases found
  | some tomlBytes =>
  refine Ensures.through (v := tomlBytes) (.ret ⟨rfl, rfl⟩) ?_
  refine (ensures_parseDescriptor tomlBytes).tryBind (fun descriptor u ended => ?_) fun stop u ended => ?_
  rotate_left
  · obtain ⟨rfl, ⟨_, wrong, _⟩ | ⟨-, invalid⟩⟩ := ended
    · cases wrong
    · refine .refused stop fun fileBytes' descriptor offers => ?_
      obtain ⟨tomlBytes', found, describes⟩ := offers.described
      rw [these offers, toml] at found
      cases found
      exact invalid descriptor describes offers.valid
  obtain ⟨rfl, ⟨_, same, describes, valid⟩ | ⟨⟨_, wrong⟩, _⟩⟩ := ended
  rotate_left
  · cases wrong
  cases same
  have offers : Offers k path archive fileBytes descriptor := ⟨verified.symm, decodes, ⟨tomlBytes, toml, describes⟩, valid⟩
  refine .call fun created may => ?_
  cases created with
  | error e => exact Ensures.fails (.ret ⟨rfl, rfl⟩) (.blocked fileBytes descriptor e _ _ offers may)
  | ok _ =>
    refine Ensures.through (v := ()) (x := mapErr _ (.ok ())) (.ret ⟨rfl, rfl⟩) ?_
    rw [makes]
    cases found : fileBytes.lookup "payload.tar" with
    | none => exact Ensures.fails (.ret ⟨rfl, rfl⟩) (.stranded fileBytes descriptor _ offers (Finmap.lookup_eq_none.mp found))
    | some payload =>
      have packed : "payload.tar" ∈ fileBytes := Finmap.mem_iff.mpr ⟨payload, found⟩
      refine Ensures.through (v := payload) (x := okOr _ (some payload)) (.ret ⟨rfl, rfl⟩) (.call fun unpacked may => ?_)
      cases unpacked with
      | error e => exact Ensures.fails (.ret ⟨rfl, rfl⟩) (.failed fileBytes descriptor _ _ offers packed)
      | ok _ =>
        refine Ensures.through (v := ()) (x := mapErr _ (.ok ())) (.ret ⟨rfl, rfl⟩) ?_
        refine (ensures_print quiet _).mono fun r u ended => ?_
        obtain ⟨rfl, -⟩ := ended
        exact .done fileBytes descriptor u offers packed

end spec

/-- The jails are kept in a directory. -/
def Rooted (m : Machine) (root : String) : Prop := ∀ place, place <+: resolve m.cwd root → m.nodes.lookup place = some .dir

theorem mkdirs_made {nodes : Nodes} {place : Place} (made : ∀ above, above <+: place → above ∈ nodes) :
    mkdirs nodes place = nodes := by
  refine Finmap.ext_lookup fun other => ?_
  rw [mkdirs, lookup_mkdirs]
  split
  · rfl
  · rename_i absent
    rw [if_neg fun member => absent (made other ((List.mem_inits _ _).mp member)), Finmap.lookup_eq_none.mpr absent]

section rooted
variable {fileBytes : FileBytes} {descriptor : JpkDescriptor}

theorem Offers.unique {fileBytes' : FileBytes} {descriptor' : JpkDescriptor}
    (offers : Offers k path archive fileBytes descriptor) (offers' : Offers k path archive fileBytes' descriptor') :
    fileBytes' = fileBytes ∧ descriptor' = descriptor := by
  cases offers.decodes.symm.trans offers'.decodes
  obtain ⟨tomlBytes, found, text, read, decoded⟩ := offers.described
  obtain ⟨tomlBytes', found', text', read', decoded'⟩ := offers'.described
  cases found.symm.trans found'
  cases read.symm.trans read'
  cases decoded.symm.trans decoded'
  exact ⟨rfl, rfl⟩

/-- What does not fail here can happen. -/
theorem installs_admits (u : Machine) (op : Op) (r : op.Ret) (may : (installer lib).may () u op r = true) :
    (hosted lib).may () u op r = true := by
  cases op with
  | openFile path =>
    cases r with
    | error e => rfl
    | ok bytes => exact may
  | createDirAll path =>
    cases r with
    | error e => rfl
    | ok _ =>
      have answer : true = !obstructed u.nodes (resolve u.cwd path) := of_decide_eq_true may
      rw [obstructed, eq_comm, Bool.not_eq_true', List.any_eq_false] at answer
      refine List.all_eq_true.mpr fun above member => decide_eq_true ?_
      have free := answer above member
      cases there : u.nodes.lookup above with
      | none => simp
      | some node =>
        rw [there] at free
        cases node with
        | dir => simp
        | file bytes => simp at free
        | other => simp
  | _ => rfl

/-- The directory of a package is right below the root, or is there already. -/
theorem Offers.place (offers : Offers k path archive fileBytes descriptor) (cwd : Place) (root : String) :
    resolve cwd (join root descriptor.header.id) = resolve cwd root ++ [descriptor.header.id] ∨
      resolve cwd (join root descriptor.header.id) <+: resolve cwd root := by
  have named := validate_name offers.valid
  rw [resolve_join named.2]
  by_cases dot : descriptor.header.id = "."
  · rw [dot, enter_dot]
    exact Or.inr (List.prefix_refl _)
  · by_cases dots : descriptor.header.id = ".."
    · rw [dots, enter_dotdot]
      exact Or.inr (List.dropLast_prefix _)
    · exact Or.inl (Proper.enter ⟨named.1, dot, dots⟩ _)

/-- Below the root, the preparation makes the directory of the package and nothing else. -/
theorem Offers.prepared_same (offers : Offers k path archive fileBytes descriptor) (rooted : Rooted m root)
    (taken : m.node (join root descriptor.header.id) ≠ none) : m.prepared root descriptor = m := by
  have dirs {above : Place} (inside : above <+: resolve m.cwd root) : above ∈ m.nodes :=
    Finmap.mem_iff.mpr ⟨_, rooted above inside⟩
  have same : mkdirs m.nodes (resolve m.cwd (join root descriptor.header.id)) = m.nodes := by
    refine mkdirs_made fun above inside => ?_
    rcases offers.place m.cwd root with child | higher
    · rw [child] at inside
      rcases List.prefix_concat_iff.mp inside with rfl | inside
      · rw [← child]
        exact Finmap.mem_iff.mpr (Option.ne_none_iff_exists'.mp taken)
      · exact dirs inside
    · exact dirs (inside.trans higher)
  rw [Machine.prepared, same]

theorem Offers.prepared_new (offers : Offers k path archive fileBytes descriptor) (rooted : Rooted m root)
    (free : m.node (join root descriptor.header.id) = none) :
    resolve m.cwd root <+: resolve m.cwd (join root descriptor.header.id) ∧
      (m.prepared root descriptor).nodes.lookup (resolve m.cwd (join root descriptor.header.id)) = some .dir ∧
      obstructed m.nodes (resolve m.cwd (join root descriptor.header.id)) = false := by
  have absent : resolve m.cwd (join root descriptor.header.id) ∉ m.nodes := Finmap.lookup_eq_none.mp free
  rcases offers.place m.cwd root with child | higher
  · refine ⟨child ▸ List.prefix_append _ _, ?_, ?_⟩
    · rw [Machine.prepared, mkdirs, lookup_mkdirs, if_neg absent, if_pos ((List.mem_inits _ _).mpr (List.prefix_refl _))]
    · rw [obstructed, List.any_eq_false]
      intro above member
      have inside := (List.mem_inits _ _).mp member
      rw [child] at inside
      rcases List.prefix_concat_iff.mp inside with rfl | inside
      · rw [← child, Finmap.lookup_eq_none.mpr absent]
        simp
      · simp [rooted above inside]
  · have there := rooted _ higher
    rw [Finmap.lookup_eq_none.mpr absent] at there
    cases there

/-- A package without a payload is found to have none when its directory has been made. -/
theorem Offers.strands (offers : Offers k path archive fileBytes descriptor) (lib : Libraries Nodes)
    (there : m.node path = some (.file archive)) (rooted : Rooted m root) (unpacked : "payload.tar" ∉ fileBytes)
    (free : m.node (join root descriptor.header.id) = none) :
    ∃ moments msg, Exec (hosted lib) () (runInstall k path root).run m moments (.error (.failed (.archive msg)))
      (m.prepared root descriptor) := by
  obtain ⟨-, -, clear⟩ := offers.prepared_new rooted free
  have installs : Ensures (installer lib) () (runInstall k path root).run m (Ends (installer lib) k m path root archive) :=
    ensures_runInstall installer_quiet (fun r may => Or.inl (installer_opens there r may)) fun _ => rfl
  obtain ⟨moments, r, u, exec, ends⟩ := installs.can installer_answers
  have stranded : u = m.prepared root descriptor ∧ ∃ msg, r = .error (.failed (.archive msg)) := by
    cases ends with
    | unopened e stop may => cases installer_opens there _ may
    | refused stop none => exact absurd offers (none _ _)
    | blocked fileBytes' descriptor' e msg u offers' may =>
      obtain ⟨-, rfl⟩ := offers.unique offers'
      have answer : false = !obstructed m.nodes (resolve m.cwd (join root descriptor'.header.id)) := of_decide_eq_true may
      rw [clear] at answer
      cases answer
    | stranded fileBytes' descriptor' msg offers' =>
      obtain ⟨-, rfl⟩ := offers.unique offers'
      exact ⟨rfl, msg, rfl⟩
    | failed fileBytes' descriptor' msg u offers' packed =>
      obtain ⟨rfl, -⟩ := offers.unique offers'
      exact absurd packed unpacked
    | done fileBytes' descriptor' u offers' packed =>
      obtain ⟨rfl, -⟩ := offers.unique offers'
      exact absurd packed unpacked
  obtain ⟨rfl, msg, rfl⟩ := stranded
  exact ⟨moments, msg, exec.widen (fun _ _ _ => rfl) installs_admits⟩

/-- An installation that is refused for what is in the package leaves the jails as they were,
exactly if the package has a payload or its directory is there already. -/
theorem refused_unchanged_iff (there : m.node path = some (.file archive)) (rooted : Rooted m root) :
    (∀ moments e u, Exec (hosted lib) () (runInstall k path root).run m moments (.error (.failed e)) u →
        (∀ msg, e ≠ .install msg) → ∀ place, resolve m.cwd root <+: place → u.nodes.lookup place = m.nodes.lookup place) ↔
      ∀ fileBytes descriptor, Offers k path archive fileBytes descriptor →
        "payload.tar" ∈ fileBytes ∨ m.node (join root descriptor.header.id) ≠ none := by
  constructor
  · intro unchanged fileBytes descriptor offers
    by_contra neither
    obtain ⟨unpacked, free⟩ := not_or.mp neither
    obtain ⟨inside, made, -⟩ := offers.prepared_new rooted (not_not.mp free)
    obtain ⟨moments, msg, exec⟩ := offers.strands lib there rooted unpacked (not_not.mp free)
    have same := unchanged moments _ _ exec (fun _ => nofun) _ inside
    have absent : m.nodes.lookup (resolve m.cwd (join root descriptor.header.id)) = none := not_not.mp free
    rw [made, absent] at same
    cases same
  · intro complete moments e u exec content place inside
    have ends := ensures_runInstall (S := hosted lib) hosted_quiet (hosted_opens there) (fun _ => rfl) moments _ u exec
    cases ends with
    | unopened => rfl
    | refused => rfl
    | blocked => exact absurd rfl (content _)
    | stranded fileBytes descriptor msg offers unpacked =>
      rw [offers.prepared_same rooted ((complete fileBytes descriptor offers).resolve_left unpacked)]
    | failed => exact absurd rfl (content _)

end rooted

theorem footHost_rooted {nodes : Nodes} : Rooted
    ⟨[], ((nodes.insert [] .dir).insert ["jails"] .dir).insert ["foot.jpk"] (.file archive), []⟩ "jails" := by
  have root : resolve [] "jails" = ["jails"] := by decide +kernel
  intro place inside
  rw [root] at inside
  rcases List.prefix_cons_iff.mp inside with rfl | ⟨rest, rfl, below⟩
  · rw [Finmap.lookup_insert_of_ne _ (by simp), Finmap.lookup_insert_of_ne _ (by simp)]
    exact Finmap.lookup_insert _
  · rw [List.prefix_nil.mp below, Finmap.lookup_insert_of_ne _ (by decide)]
    exact Finmap.lookup_insert _

theorem refused_unchanged_foot :
    (∀ moments e u, Exec (hosted packedLibraries) () (runInstall packedCodecs "foot.jpk" "jails").run footHost moments
        (.error (.failed e)) u → (∀ msg, e ≠ .install msg) →
      ∀ place, resolve footHost.cwd "jails" <+: place → u.nodes.lookup place = footHost.nodes.lookup place) ↔
      ∀ fileBytes descriptor, Offers packedCodecs "foot.jpk" packedArchive fileBytes descriptor →
        "payload.tar" ∈ fileBytes ∨ footHost.node (join "jails" descriptor.header.id) ≠ none := by
  have place : resolve [] "foot.jpk" = ["foot.jpk"] := by decide +kernel
  exact refused_unchanged_iff ((Machine.node_at place).trans (Finmap.lookup_insert _)) footHost_rooted

/-- The gzipped archive of an empty manifest and a descriptor, without a payload. -/
def hollowPackage : Bytes :=
  [31, 139, 8, 0, 0, 0, 0, 0, 2, 3, 237, 147, 59, 78, 196, 48, 16, 134, 83, 251, 20, 43, 31, 32, 177, 193, 4, 9,
   137, 83, 80, 70, 81, 228, 36, 19, 118, 130, 31, 193, 118, 144, 34, 196, 221, 177, 3, 8, 45, 13, 213, 110, 179,
   254, 154, 121, 253, 163, 153, 230, 215, 210, 224, 4, 62, 148, 179, 183, 166, 56, 15, 44, 82, 11, 177, 199, 200,
   223, 200, 24, 23, 191, 121, 234, 115, 38, 4, 47, 14, 172, 184, 0, 171, 15, 210, 197, 243, 197, 117, 242, 78, 39,
   84, 224, 233, 67, 211, 126, 20, 153, 171, 99, 94, 94, 202, 96, 181, 58, 231, 141, 255, 252, 127, 91, 243, 83,
   255, 179, 123, 113, 83, 103, 255, 95, 130, 70, 67, 144, 45, 241, 195, 17, 180, 236, 222, 192, 121, 180, 230,
   240, 120, 160, 188, 100, 148, 224, 152, 82, 235, 158, 203, 222, 143, 214, 151, 147, 181, 129, 146, 83, 85, 210,
   25, 169, 33, 149, 95, 243, 102, 176, 122, 145, 1, 123, 84, 24, 182, 150, 236, 187, 221, 96, 71, 72, 186, 78,
   227, 190, 250, 244, 186, 162, 115, 160, 40, 153, 28, 64, 212, 252, 12, 248, 93, 201, 41, 145, 110, 56, 198, 170,
   161, 210, 108, 180, 37, 141, 91, 77, 64, 13, 45, 9, 219, 178, 223, 154, 37, 198, 93, 48, 193, 109, 139, 69, 19,
   82, 175, 90, 189, 171, 148, 29, 164, 170, 122, 52, 213, 247, 59, 11, 56, 141, 62, 189, 236, 91, 146, 45, 159,
   201, 100, 50, 59, 159, 139, 103, 142, 138, 0, 12, 0, 0]

def hollowCodecs : Codecs where
  entries b :=
    if b = hollowPackage then
      .ok [.ok ⟨.ok "manifest.json", .ok (bytesOf emptyManifest)⟩, .ok ⟨.ok "jpk.toml", .ok (bytesOf footToml)⟩]
    else .error "invalid gzip header"
  manifest := footCodecs.manifest
  utf8 := footCodecs.utf8
  toml := footCodecs.toml
  sha256 := footCodecs.sha256

def hollowBytes : FileBytes :=
  ((∅ : FileBytes).insert "manifest.json" (bytesOf emptyManifest)).insert "jpk.toml" (bytesOf footToml)

def hollowHost : Machine where
  cwd := []
  nodes := (((∅ : Nodes).insert [] .dir).insert ["jails"] .dir).insert ["foot.jpk"] (.file hollowPackage)
  written := []

theorem hollow_offers : Offers hollowCodecs "foot.jpk" hollowPackage hollowBytes footDescriptor := by
  have other : bytesOf emptyManifest ≠ bytesOf footManifest := by decide +kernel
  have reads : Reads hollowCodecs hollowPackage hollowBytes ⟨[]⟩ := by
    refine ⟨bytesOf emptyManifest, ?_, by decide +kernel, ?_⟩
    · simp only [members, hollowCodecs, if_true]
      rfl
    · simp only [hollowCodecs, footCodecs, if_neg other, if_true]
  refine ⟨judge_intact ⟨hollowBytes, ⟨[]⟩, reads, by simp⟩, reads.choose_spec.1, ⟨bytesOf footToml, Finmap.lookup_insert _,
    footToml, ?_, ?_⟩, by decide +kernel⟩
  · simp only [hollowCodecs, footCodecs, if_true]
  · simp only [hollowCodecs, footCodecs, if_true]

/-- A package without a payload is refused, and leaves an empty jail behind. -/
theorem empty_jail_left : hollowHost.node "foot.jpk" = some (.file hollowPackage) ∧ Rooted hollowHost "jails" ∧
    ∃ moments e u, Exec (hosted packedLibraries) () (runInstall hollowCodecs "foot.jpk" "jails").run hollowHost moments
      (.error (.failed e)) u ∧ (∀ msg, e ≠ .install msg) ∧
      u.nodes.lookup ["jails", "org.bsdos.foot"] ≠ hollowHost.nodes.lookup ["jails", "org.bsdos.foot"] := by
  have place : resolve [] "foot.jpk" = ["foot.jpk"] := by decide +kernel
  have there : hollowHost.node "foot.jpk" = some (.file hollowPackage) :=
    (Machine.node_at place).trans (Finmap.lookup_insert _)
  have jail : resolve [] (join "jails" "org.bsdos.foot") = ["jails", "org.bsdos.foot"] := by decide +kernel
  have absent : hollowHost.nodes.lookup ["jails", "org.bsdos.foot"] = none := by decide
  have free : hollowHost.node (join "jails" footDescriptor.header.id) = none := (Machine.node_at jail).trans absent
  have unpacked : "payload.tar" ∉ hollowBytes := by decide
  obtain ⟨moments, msg, exec⟩ := hollow_offers.strands packedLibraries there footHost_rooted unpacked free
  have made : (hollowHost.prepared "jails" footDescriptor).nodes.lookup ["jails", "org.bsdos.foot"] = some .dir := by
    rw [← jail]
    exact (hollow_offers.prepared_new (m := hollowHost) footHost_rooted free).2.1
  refine ⟨there, footHost_rooted, moments, _, _, exec, fun _ => nofun, ?_⟩
  rw [made, absent]
  exact nofun

end Bsdos.Pkgd
