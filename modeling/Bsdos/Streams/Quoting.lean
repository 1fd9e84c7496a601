import Bsdos.Shell.Words
import Bsdos.Streams.Calls
import Bsdos.Streams.Control

namespace Bsdos.Streams
open Effects
open Shell hiding read

/-- The shell lines of the apps. -/
def suShell (rundir rest : String) : String :=
  "exec env XDG_RUNTIME_DIR='" ++ rundir ++ "' WAYLAND_DISPLAY=wayland-ghost-0 " ++ rest

def firefoxShell (rundir user url : String) : String :=
  suShell rundir ("MOZ_ENABLE_WAYLAND=1 HOME=/home/" ++ user ++
    " /usr/local/bin/firefox --new-instance --no-remote '" ++ url ++ "'")

def chromeShell (rundir user url : String) : String :=
  suShell rundir ("HOME=/home/" ++ user ++
    " LIBGL_ALWAYS_SOFTWARE=true MESA_GL_VERSION_OVERRIDE=3.3 /usr/local/bin/chrome --ozone-platform=wayland" ++
    " --no-sandbox --no-first-run --no-default-browser-check --user-data-dir=/home/" ++ user ++
    "/.bsdos-chrome --force-device-scale-factor=2 --new-window '" ++ url ++ "'")

def coworkShell (rundir user electron appDir : String) : String :=
  suShell rundir ("HOME=/home/" ++ user ++
    " COWORK_VM_BACKEND=host GIO_USE_VFS=local GSETTINGS_BACKEND=memory LIBGL_ALWAYS_SOFTWARE=true" ++
    " MESA_GL_VERSION_OVERRIDE=3.3 " ++ electron ++
    " --no-sandbox --ozone-platform=wayland --force-device-scale-factor=2 " ++ appDir)

def cogShell (rundir user url : String) : String :=
  suShell rundir ("HOME=/home/" ++ user ++ " /usr/local/bin/cog --platform=fdo '" ++ url ++ "'")

/-- The last word of the line: the URL, or the directory of the app. -/
def target (cfg : StreamConfig) : String :=
  match cfg.app with
  | "cowork" | "claude-desktop" => if cfg.url.isEmpty || cfg.url = "about:blank" then "/opt/claude-cowork" else cfg.url
  | "wpewebkit-fdo" | "phantom-browser" | "cog" => if cfg.url.isEmpty || cfg.url = "about:blank" then "about:blank" else cfg.url
  | _ => cfg.url

/-- The line with which the app is run, for the Electron binary that was found. -/
def commandLine (cfg : StreamConfig) (rundir electron : String) : Option String :=
  match cfg.app with
  | "firefox" => some (firefoxShell rundir cfg.user (target cfg))
  | "chrome" | "chromium" => some (chromeShell rundir cfg.user (target cfg))
  | "cowork" | "claude-desktop" => some (coworkShell rundir cfg.user electron (target cfg))
  | "wpewebkit-fdo" | "phantom-browser" | "cog" => some (cogShell rundir cfg.user (target cfg))
  | _ => none

/-- The words that the line is meant to have: variables, the binary with its options, and
the target. -/
def intended (cfg : StreamConfig) (rundir electron : String) : List String :=
  let home := "HOME=/home/" ++ cfg.user
  let gl := ["LIBGL_ALWAYS_SOFTWARE=true", "MESA_GL_VERSION_OVERRIDE=3.3"]
  let rest : List String :=
    match cfg.app with
    | "firefox" => ["MOZ_ENABLE_WAYLAND=1", home, "/usr/local/bin/firefox", "--new-instance", "--no-remote"]
    | "chrome" | "chromium" => home :: gl ++ ["/usr/local/bin/chrome", "--ozone-platform=wayland", "--no-sandbox",
        "--no-first-run", "--no-default-browser-check", "--user-data-dir=/home/" ++ cfg.user ++ "/.bsdos-chrome",
        "--force-device-scale-factor=2", "--new-window"]
    | "cowork" | "claude-desktop" => [home, "COWORK_VM_BACKEND=host", "GIO_USE_VFS=local", "GSETTINGS_BACKEND=memory"] ++
        gl ++ [electron, "--no-sandbox", "--ozone-platform=wayland", "--force-device-scale-factor=2"]
    | _ => [home, "/usr/local/bin/cog", "--platform=fdo"]
  ["exec", "env", "XDG_RUNTIME_DIR=" ++ rundir, "WAYLAND_DISPLAY=wayland-ghost-0"] ++ rest ++ [target cfg]

/-- A text that needs no quotation marks. -/
def Ordinary (text : String) : Prop := ∀ c ∈ text.toList, isOrdinary c = true

/-- No quotation mark in what is put between quotation marks, nothing that means something
to the shell in what is not. -/
structure Harmless (cfg : StreamConfig) : Prop where
  appId : '\'' ∉ cfg.appId.toList
  user : Ordinary cfg.user
  url : if cfg.app = "cowork" ∨ cfg.app = "claude-desktop" then
      Ordinary cfg.url ∧ cfg.url.toList.head? ≠ some '#' ∧ cfg.url.toList.head? ≠ some '~'
    else '\'' ∉ cfg.url.toList

/-- Every app that is run by a shell gets such a line. -/
def Op.Passes (cfg : StreamConfig) (rundir : String) (op : Op) : Prop :=
  ∀ appId role command, op = .spawn appId role command → command = footCommand rundir ∨
    ∃ electron ∈ electrons, ∃ line, commandLine cfg rundir electron = some line ∧
      command = ⟨"su", [], ["-m", cfg.user, "-c", line]⟩

theorem firstExisting_finds {Q : Op → Prop} (looks : ∀ path, Q (.pathExists path)) (paths : List String) :
    (firstExisting paths).Follows (.always Q) (fun found _ => ∀ path, found = some path → path ∈ paths) () := by
  induction paths with
  | nil => exact fun _ none => nomatch none
  | cons path paths ih =>
    refine ⟨looks path, fun there => ?_⟩
    cases there with
    | true => exact fun path' found => Option.some.inj found ▸ List.mem_cons_self ..
    | false => exact Prog.Follows.mono ih fun found _ among path' same => List.mem_cons_of_mem path (among path' same)

theorem spawnApp_passes (cfg : StreamConfig) (rundir : String) : (spawnApp cfg rundir).run.Only (Op.Passes cfg rundir) := by
  have looks (path : String) : Op.Passes cfg rundir (.pathExists path) := fun _ _ _ spawned => nomatch spawned
  have shell {line electron : String} (found : electron ∈ electrons) (some : commandLine cfg rundir electron = some line) :
      (spawn cfg.appId .app ⟨"su", [], ["-m", cfg.user, "-c", line]⟩ "app spawn: ").run.Only (Op.Passes cfg rundir) := by
    refine spawn_only fun appId role command spawned => .inr ⟨electron, found, line, some, ?_⟩
    cases spawned
    rfl
  have first : "/usr/local/bin/electron42" ∈ electrons := List.mem_cons_self ..
  have cowork (line : String → String) (some : ∀ electron, commandLine cfg rundir electron = some (line electron)) :
      ((firstExisting electrons >>= fun found => (spawn cfg.appId .app
        ⟨"su", [], ["-m", cfg.user, "-c", line (found.getD "/usr/local/bin/electron42")]⟩ "app spawn: ").run)).Only
        (Op.Passes cfg rundir) := by
    have later : (firstExisting electrons >>= fun found => (spawn cfg.appId .app
        ⟨"su", [], ["-m", cfg.user, "-c", line (found.getD "/usr/local/bin/electron42")]⟩ "app spawn: ").run).Follows
        (.always (Op.Passes cfg rundir)) (fun _ _ => True) () := by
      refine (firstExisting_finds looks electrons).bind fun found _ among => ?_
      have one : found.getD "/usr/local/bin/electron42" ∈ electrons := by
        cases found with
        | none => exact first
        | some path => exact among path rfl
      exact (shell one (some _)).keeps (I := fun _ => True) (fun _ _ passes _ => ⟨passes, fun _ => trivial⟩) trivial
    exact Prog.only_of_follows later
  unfold spawnApp
  split
  · rename_i app
    exact shell first (by simp only [commandLine, target, app]; rfl)
  · refine spawn_only fun appId role command spawned => .inl ?_
    cases spawned
    rfl
  · rename_i app
    exact shell first (by simp only [commandLine, target, app]; rfl)
  · rename_i app
    exact shell first (by simp only [commandLine, target, app]; rfl)
  · rename_i app
    rw [run_liftBind]
    exact cowork _ fun electron => by simp only [commandLine, target, app]; rfl
  · rename_i app
    rw [run_liftBind]
    exact cowork _ fun electron => by simp only [commandLine, target, app]; rfl
  · rename_i app
    exact shell first (by simp only [commandLine, target, app]; rfl)
  · rename_i app
    exact shell first (by simp only [commandLine, target, app]; rfl)
  · rename_i app
    exact shell first (by simp only [commandLine, target, app]; rfl)
  · trivial

/-- Words without quotation marks. -/
def fixed (texts : List String) : List Written := texts.map fun text => [.bare text]

theorem fixed_clean {texts : List String} (all : texts.all isClean = true) : ∀ w ∈ fixed texts, w.Clean := by
  intro w member
  obtain ⟨text, among, rfl⟩ := List.mem_map.mp member
  exact clean_bare.mpr (List.all_eq_true.mp all text among)

section written
variable {rundir user electron text : String}

/-- The lines as they are written. -/
def suWritten (rundir : String) (rest : List Written) : List Written :=
  fixed ["exec", "env"] ++ [.bare "XDG_RUNTIME_DIR=", .quoted rundir] :: fixed ["WAYLAND_DISPLAY=wayland-ghost-0"] ++ rest

def homeWritten (user : String) : Written := [.bare "HOME=/home/", .bare user]

def firefoxWritten (rundir user url : String) : List Written :=
  suWritten rundir (fixed ["MOZ_ENABLE_WAYLAND=1"] ++ homeWritten user ::
    fixed ["/usr/local/bin/firefox", "--new-instance", "--no-remote"] ++ [[.quoted url]])

def chromeWritten (rundir user url : String) : List Written :=
  suWritten rundir (homeWritten user :: fixed ["LIBGL_ALWAYS_SOFTWARE=true", "MESA_GL_VERSION_OVERRIDE=3.3",
    "/usr/local/bin/chrome", "--ozone-platform=wayland", "--no-sandbox", "--no-first-run", "--no-default-browser-check"] ++
    [.bare "--user-data-dir=/home/", .bare user, .bare "/.bsdos-chrome"] ::
    fixed ["--force-device-scale-factor=2", "--new-window"] ++ [[.quoted url]])

def coworkWritten (rundir user electron appDir : String) : List Written :=
  suWritten rundir (homeWritten user :: fixed ["COWORK_VM_BACKEND=host", "GIO_USE_VFS=local", "GSETTINGS_BACKEND=memory",
    "LIBGL_ALWAYS_SOFTWARE=true", "MESA_GL_VERSION_OVERRIDE=3.3", electron, "--no-sandbox", "--ozone-platform=wayland",
    "--force-device-scale-factor=2"] ++ [[.bare appDir]])

def cogWritten (rundir user url : String) : List Written :=
  suWritten rundir (homeWritten user :: fixed ["/usr/local/bin/cog", "--platform=fdo"] ++ [[.quoted url]])

theorem suShell_written {rest : String} {w : Written} {words : List Written} (same : rest.toList = lineChars (w :: words)) :
    (suShell rundir rest).toList = lineChars (suWritten rundir (w :: words)) := by
  unfold suShell suWritten fixed
  simp only [List.map_cons, List.map_nil, List.cons_append, List.nil_append, String.toList_append, same]
  simp [lineChars, Written.chars, Piece.chars]

theorem firefoxShell_written : (firefoxShell rundir user text).toList = lineChars (firefoxWritten rundir user text) := by
  refine suShell_written ?_
  simp only [fixed, List.map_cons, List.map_nil, homeWritten]
  simp [lineChars, Written.chars, Piece.chars, -String.reduceToList]
  repeat rw [String.toList_ofList]
  rfl

theorem chromeShell_written : (chromeShell rundir user text).toList = lineChars (chromeWritten rundir user text) := by
  refine suShell_written ?_
  simp only [fixed, List.map_cons, List.map_nil, homeWritten]
  simp [lineChars, Written.chars, Piece.chars, -String.reduceToList]
  repeat rw [String.toList_ofList]
  rfl

theorem coworkShell_written :
    (coworkShell rundir user electron text).toList = lineChars (coworkWritten rundir user electron text) := by
  refine suShell_written ?_
  simp only [fixed, List.map_cons, List.map_nil, homeWritten]
  simp [lineChars, Written.chars, Piece.chars, -String.reduceToList]
  repeat rw [String.toList_ofList]
  rfl

theorem cogShell_written : (cogShell rundir user text).toList = lineChars (cogWritten rundir user text) := by
  refine suShell_written ?_
  simp only [fixed, List.map_cons, List.map_nil, homeWritten]
  simp [lineChars, Written.chars, Piece.chars, -String.reduceToList]
  repeat rw [String.toList_ofList]
  rfl

theorem suWritten_clean {words : List Written} :
    (∀ w ∈ suWritten rundir words, w.Clean) ↔ '\'' ∉ rundir.toList ∧ ∀ w ∈ words, w.Clean := by
  have first : ∀ w ∈ fixed ["exec", "env"], w.Clean := fixed_clean (by decide)
  have display : ∀ w ∈ fixed ["WAYLAND_DISPLAY=wayland-ghost-0"], w.Clean := fixed_clean (by decide)
  have directory : Written.Clean [.bare "XDG_RUNTIME_DIR=", .quoted rundir] ↔ '\'' ∉ rundir.toList := by
    rw [clean_led (by decide)]
    exact List.forall_mem_singleton
  unfold suWritten
  rw [List.append_assoc, List.forall_mem_append, List.cons_append, List.forall_mem_cons, List.forall_mem_append, directory]
  exact ⟨fun clean => ⟨clean.2.1, clean.2.2.2⟩, fun clean => ⟨first, clean.1, display, clean.2⟩⟩

theorem homeWritten_clean : (homeWritten user).Clean ↔ Ordinary user := by
  unfold homeWritten
  rw [clean_led (by decide)]
  exact List.forall_mem_singleton

theorem firefoxWritten_clean : (∀ w ∈ firefoxWritten rundir user text, w.Clean) ↔
    '\'' ∉ rundir.toList ∧ Ordinary user ∧ '\'' ∉ text.toList := by
  have wayland : ∀ w ∈ fixed ["MOZ_ENABLE_WAYLAND=1"], w.Clean := fixed_clean (by decide)
  have options : ∀ w ∈ fixed ["/usr/local/bin/firefox", "--new-instance", "--no-remote"], w.Clean := fixed_clean (by decide)
  rw [firefoxWritten, suWritten_clean, List.append_assoc, List.forall_mem_append, List.cons_append, List.forall_mem_cons,
    homeWritten_clean, List.forall_mem_append, List.forall_mem_singleton, clean_quoted]
  exact ⟨fun clean => ⟨clean.1, clean.2.2.1, clean.2.2.2.2⟩, fun clean => ⟨clean.1, wayland, clean.2.1, options, clean.2.2⟩⟩

theorem chromeWritten_clean : (∀ w ∈ chromeWritten rundir user text, w.Clean) ↔
    '\'' ∉ rundir.toList ∧ Ordinary user ∧ '\'' ∉ text.toList := by
  have options : ∀ w ∈ fixed ["LIBGL_ALWAYS_SOFTWARE=true", "MESA_GL_VERSION_OVERRIDE=3.3", "/usr/local/bin/chrome",
      "--ozone-platform=wayland", "--no-sandbox", "--no-first-run", "--no-default-browser-check"], w.Clean := by
    refine fixed_clean ?_
    simp only [List.all_cons, List.all_nil, isClean, -String.reduceToList]
    repeat rw [String.toList_ofList]
    decide
  have more : ∀ w ∈ fixed ["--force-device-scale-factor=2", "--new-window"], w.Clean := fixed_clean (by decide)
  have profile : Written.Clean [.bare "--user-data-dir=/home/", .bare user, .bare "/.bsdos-chrome"] ↔ Ordinary user := by
    have last : Ordinary "/.bsdos-chrome" := (isClean_iff.mp (by decide)).1
    rw [clean_led (by decide), List.forall_mem_cons, List.forall_mem_singleton]
    exact and_iff_left last
  rw [chromeWritten, suWritten_clean, List.append_assoc, List.cons_append, List.forall_mem_cons, homeWritten_clean,
    List.forall_mem_append, List.cons_append, List.forall_mem_cons, profile, List.forall_mem_append,
    List.forall_mem_singleton, clean_quoted]
  exact ⟨fun clean => ⟨clean.1, clean.2.1, clean.2.2.2.2.2⟩,
    fun clean => ⟨clean.1, clean.2.1, options, clean.2.1, more, clean.2.2⟩⟩

theorem coworkWritten_clean (binary : electron ∈ electrons) : (∀ w ∈ coworkWritten rundir user electron text, w.Clean) ↔
    '\'' ∉ rundir.toList ∧ Ordinary user ∧ isClean text = true := by
  have options : ∀ w ∈ fixed ["COWORK_VM_BACKEND=host", "GIO_USE_VFS=local", "GSETTINGS_BACKEND=memory",
      "LIBGL_ALWAYS_SOFTWARE=true", "MESA_GL_VERSION_OVERRIDE=3.3", electron, "--no-sandbox", "--ozone-platform=wayland",
      "--force-device-scale-factor=2"], w.Clean := by
    have binary : isClean electron = true := by
      revert electron
      decide
    refine fixed_clean ?_
    simp only [List.all_cons, List.all_nil, binary]
    simp only [isClean, -String.reduceToList]
    repeat rw [String.toList_ofList]
    decide
  rw [coworkWritten, suWritten_clean, List.cons_append, List.forall_mem_cons, homeWritten_clean, List.forall_mem_append,
    List.forall_mem_singleton, clean_bare]
  exact ⟨fun clean => ⟨clean.1, clean.2.1, clean.2.2.2⟩, fun clean => ⟨clean.1, clean.2.1, options, clean.2.2⟩⟩

theorem cogWritten_clean : (∀ w ∈ cogWritten rundir user text, w.Clean) ↔
    '\'' ∉ rundir.toList ∧ Ordinary user ∧ '\'' ∉ text.toList := by
  have options : ∀ w ∈ fixed ["/usr/local/bin/cog", "--platform=fdo"], w.Clean := fixed_clean (by decide)
  rw [cogWritten, suWritten_clean, List.cons_append, List.forall_mem_cons, homeWritten_clean, List.forall_mem_append,
    List.forall_mem_singleton, clean_quoted]
  exact ⟨fun clean => ⟨clean.1, clean.2.1, clean.2.2.2⟩, fun clean => ⟨clean.1, clean.2.1, options, clean.2.2⟩⟩

theorem bare_meant : Token.word ((Written.meant [.bare text]).map .literal) = exactly text := by
  simp only [Written.meant, List.flatMap_singleton, Piece.meant, exactly]

theorem quoted_meant : Token.word ((Written.meant [.quoted text]).map .literal) = exactly text := by
  simp only [Written.meant, List.flatMap_singleton, Piece.meant, exactly]

theorem homeWritten_meant : Token.word ((homeWritten user).meant.map .literal) = exactly ("HOME=/home/" ++ user) := by
  simp only [homeWritten, Written.meant, List.flatMap_cons, List.flatMap_nil, Piece.meant, exactly, List.append_nil,
    String.toList_append]

theorem fixed_meant (texts : List String) : meant (fixed texts) = texts.map exactly := by
  unfold meant fixed
  rw [List.map_map]
  exact List.map_congr_left fun text _ => bare_meant

theorem suWritten_meant {words : List Written} : meant (suWritten rundir words) =
    ["exec", "env", "XDG_RUNTIME_DIR=" ++ rundir, "WAYLAND_DISPLAY=wayland-ghost-0"].map exactly ++ meant words := by
  have directory : Token.word ((Written.meant [.bare "XDG_RUNTIME_DIR=", .quoted rundir]).map .literal) =
      exactly ("XDG_RUNTIME_DIR=" ++ rundir) := by
    simp only [Written.meant, List.flatMap_cons, List.flatMap_nil, Piece.meant, exactly, List.append_nil, String.toList_append]
  simp only [suWritten, meant_append, meant_cons, fixed_meant, directory]
  rfl

end written

section intended
variable {cfg : StreamConfig} {rundir electron : String}

theorem firefoxWritten_meant (app : cfg.app = "firefox") :
    meant (firefoxWritten rundir cfg.user (target cfg)) = (intended cfg rundir electron).map exactly := by
  simp only [firefoxWritten, suWritten_meant, meant_append, meant_cons, meant_nil, fixed_meant, homeWritten_meant, quoted_meant]
  simp only [intended, app]
  rfl

theorem chromeWritten_meant (app : cfg.app = "chrome" ∨ cfg.app = "chromium") :
    meant (chromeWritten rundir cfg.user (target cfg)) = (intended cfg rundir electron).map exactly := by
  have profile : Token.word ((Written.meant [.bare "--user-data-dir=/home/", .bare cfg.user, .bare "/.bsdos-chrome"]).map .literal) =
      exactly ("--user-data-dir=/home/" ++ cfg.user ++ "/.bsdos-chrome") := by
    simp only [Written.meant, List.flatMap_cons, List.flatMap_nil, Piece.meant, exactly, List.append_nil,
      String.toList_append, List.append_assoc]
  simp only [chromeWritten, suWritten_meant, meant_append, meant_cons, meant_nil, fixed_meant, homeWritten_meant, quoted_meant,
    profile]
  rcases app with app | app <;> simp only [intended, app] <;> rfl

theorem coworkWritten_meant (app : cfg.app = "cowork" ∨ cfg.app = "claude-desktop") :
    meant (coworkWritten rundir cfg.user electron (target cfg)) = (intended cfg rundir electron).map exactly := by
  simp only [coworkWritten, suWritten_meant, meant_append, meant_cons, meant_nil, fixed_meant, homeWritten_meant, bare_meant]
  rcases app with app | app <;> simp only [intended, app] <;> rfl

theorem cogWritten_meant (app : cfg.app = "wpewebkit-fdo" ∨ cfg.app = "phantom-browser" ∨ cfg.app = "cog") :
    meant (cogWritten rundir cfg.user (target cfg)) = (intended cfg rundir electron).map exactly := by
  simp only [cogWritten, suWritten_meant, meant_append, meant_cons, meant_nil, fixed_meant, homeWritten_meant, quoted_meant]
  rcases app with app | app | app <;> simp only [intended, app] <;> rfl

/-- The line has the intended words exactly if what is quoted in it has no quotation mark,
and what is not has nothing that means something to the shell. -/
theorem read_commandLine_iff {line : String} (some : commandLine cfg rundir electron = some line)
    (binary : electron ∈ electrons) : Shell.read line = Option.some ((intended cfg rundir electron).map exactly) ↔
      '\'' ∉ rundir.toList ∧ Ordinary cfg.user ∧
        if cfg.app = "cowork" ∨ cfg.app = "claude-desktop" then isClean (target cfg) = true else '\'' ∉ (target cfg).toList := by
  have firefox (app : cfg.app = "firefox") (same : line = firefoxShell rundir cfg.user (target cfg)) :
      Shell.read line = Option.some ((intended cfg rundir electron).map exactly) ↔
        '\'' ∉ rundir.toList ∧ Ordinary cfg.user ∧ '\'' ∉ (target cfg).toList := by
    rw [same, read_line_iff firefoxShell_written (firefoxWritten_meant app), firefoxWritten_clean]
  have chrome (app : cfg.app = "chrome" ∨ cfg.app = "chromium") (same : line = chromeShell rundir cfg.user (target cfg)) :
      Shell.read line = Option.some ((intended cfg rundir electron).map exactly) ↔
        '\'' ∉ rundir.toList ∧ Ordinary cfg.user ∧ '\'' ∉ (target cfg).toList := by
    rw [same, read_line_iff chromeShell_written (chromeWritten_meant app), chromeWritten_clean]
  have cowork (app : cfg.app = "cowork" ∨ cfg.app = "claude-desktop")
      (same : line = coworkShell rundir cfg.user electron (target cfg)) :
      Shell.read line = Option.some ((intended cfg rundir electron).map exactly) ↔
        '\'' ∉ rundir.toList ∧ Ordinary cfg.user ∧ isClean (target cfg) = true := by
    rw [same, read_line_iff coworkShell_written (coworkWritten_meant app), coworkWritten_clean binary]
  have cog (app : cfg.app = "wpewebkit-fdo" ∨ cfg.app = "phantom-browser" ∨ cfg.app = "cog")
      (same : line = cogShell rundir cfg.user (target cfg)) :
      Shell.read line = Option.some ((intended cfg rundir electron).map exactly) ↔
        '\'' ∉ rundir.toList ∧ Ordinary cfg.user ∧ '\'' ∉ (target cfg).toList := by
    rw [same, read_line_iff cogShell_written (cogWritten_meant app), cogWritten_clean]
  unfold commandLine at some
  split at some
  · rename_i app
    rw [if_neg (by rw [app]; decide)]
    exact firefox app (Option.some.inj some).symm
  · rename_i app
    rw [if_neg (by rw [app]; decide)]
    exact chrome (.inl app) (Option.some.inj some).symm
  · rename_i app
    rw [if_neg (by rw [app]; decide)]
    exact chrome (.inr app) (Option.some.inj some).symm
  · rename_i app
    rw [if_pos (.inl app)]
    exact cowork (.inl app) (Option.some.inj some).symm
  · rename_i app
    rw [if_pos (.inr app)]
    exact cowork (.inr app) (Option.some.inj some).symm
  · rename_i app
    rw [if_neg (by rw [app]; decide)]
    exact cog (.inl app) (Option.some.inj some).symm
  · rename_i app
    rw [if_neg (by rw [app]; decide)]
    exact cog (.inr (.inl app)) (Option.some.inj some).symm
  · rename_i app
    rw [if_neg (by rw [app]; decide)]
    exact cog (.inr (.inr app)) (Option.some.inj some).symm
  · cases some

/-- What is asked of the last word is asked of the URL: the defaults are harmless. -/
theorem target_iff (cfg : StreamConfig) :
    (if cfg.app = "cowork" ∨ cfg.app = "claude-desktop" then isClean (target cfg) = true else '\'' ∉ (target cfg).toList) ↔
      if cfg.app = "cowork" ∨ cfg.app = "claude-desktop" then
        Ordinary cfg.url ∧ cfg.url.toList.head? ≠ some '#' ∧ cfg.url.toList.head? ≠ some '~'
      else '\'' ∉ cfg.url.toList := by
  by_cases default : (cfg.url.isEmpty || cfg.url = "about:blank") = true
  · have harmless : (Ordinary cfg.url ∧ cfg.url.toList.head? ≠ some '#' ∧ cfg.url.toList.head? ≠ some '~') ∧
        '\'' ∉ cfg.url.toList := by
      simp only [Bool.or_eq_true, decide_eq_true_eq, String.isEmpty_iff] at default
      rcases default with empty | blank
      · rw [empty]
        exact ⟨⟨fun c member => by simp at member, by simp, by simp⟩, by simp⟩
      · rw [blank]
        exact ⟨⟨(isClean_iff.mp (by decide)).1, by decide, by decide⟩, by decide⟩
    split
    · rename_i app
      have dir : target cfg = "/opt/claude-cowork" := by
        rcases app with app | app <;> simp only [target, app, if_pos default]
      rw [dir]
      exact iff_of_true (by decide) harmless.1
    · have free : '\'' ∉ (target cfg).toList := by
        unfold target
        split
        · rw [if_pos default]
          decide
        · rw [if_pos default]
          decide
        · rw [if_pos default]
          decide
        · rw [if_pos default]
          decide
        · rw [if_pos default]
          decide
        · exact harmless.2
      exact iff_of_true free harmless.2
  · have same : target cfg = cfg.url := by
      unfold target
      split <;> simp only [if_neg default]
    rw [same]
    split
    · have filled : cfg.url.toList ≠ [] := by
        intro empty
        refine default ?_
        rw [String.toList_eq_nil_iff.mp empty]
        rfl
      rw [isClean_iff]
      refine and_congr_right fun _ => ?_
      rw [List.head?_eq_some_head filled]
      simp
    · exact Iff.rfl

/-- Every line that is passed to a shell has exactly the intended words if and only if the
configuration is harmless. -/
theorem command_line_intended_iff {cfg : StreamConfig} :
    (spawnApp cfg (rundirFor cfg.appId)).run.Only (Op.Passes cfg (rundirFor cfg.appId)) ∧
    ∀ electron ∈ electrons, ∀ line, commandLine cfg (rundirFor cfg.appId) electron = some line →
      (Shell.read line = some ((intended cfg (rundirFor cfg.appId) electron).map exactly) ↔ Harmless cfg) := by
  refine ⟨spawnApp_passes cfg _, fun electron binary line passed => ?_⟩
  have directory : '\'' ∉ (rundirFor cfg.appId).toList ↔ '\'' ∉ cfg.appId.toList := by
    have base : '\'' ∉ "/tmp/bsdos/streams/".toList := by decide
    unfold rundirFor
    rw [String.toList_append, List.mem_append, not_or]
    exact and_iff_right base
  rw [read_commandLine_iff passed binary, directory, target_iff]
  exact ⟨fun ⟨appId, user, url⟩ => ⟨appId, user, url⟩, fun harmless => ⟨harmless.appId, harmless.user, harmless.url⟩⟩

/-- A search, opened in Firefox. -/
def search : StreamConfig := { StreamConfig.default with url := "https://example.org/?q=a&n=1" }

theorem command_line_intended_search :
    Shell.read (firefoxShell (rundirFor "appBrowser") "freebsd" "https://example.org/?q=a&n=1") =
      some ((intended search (rundirFor "appBrowser") "/usr/local/bin/electron42").map exactly) := by
  have harmless : Harmless search := by
    refine ⟨by decide, (isClean_iff.mp (by decide)).1, ?_⟩
    rw [if_neg (by decide)]
    decide
  exact (command_line_intended_iff.2 "/usr/local/bin/electron42" (by decide) _ rfl).mpr harmless

/-- A URL that closes its quotation marks and opens them again. -/
def reboot : StreamConfig := { StreamConfig.default with appId := "a", url := "x'; reboot; '" }

/-- The shell runs what is between as a command of its own. -/
theorem url_runs_command : ctlRequest "bsdos/ctl/stream/start" "a:firefox:x'; reboot; '" = some (.start reboot) ∧
    ∃ line, commandLine reboot (rundirFor "a") "/usr/local/bin/electron42" = some line ∧
      Shell.read line = some (["exec", "env", "XDG_RUNTIME_DIR=/tmp/bsdos/streams/a", "WAYLAND_DISPLAY=wayland-ghost-0",
        "MOZ_ENABLE_WAYLAND=1", "HOME=/home/freebsd", "/usr/local/bin/firefox", "--new-instance", "--no-remote", "x"].map exactly ++
        [.operator ';', exactly "reboot", .operator ';', exactly ""]) ∧
      Shell.read line ≠ some ((intended reboot (rundirFor "a") "/usr/local/bin/electron42").map exactly) := by
  have line : Shell.read (firefoxShell (rundirFor "a") "freebsd" "x'; reboot; '") =
      some (["exec", "env", "XDG_RUNTIME_DIR=/tmp/bsdos/streams/a", "WAYLAND_DISPLAY=wayland-ghost-0",
        "MOZ_ENABLE_WAYLAND=1", "HOME=/home/freebsd", "/usr/local/bin/firefox", "--new-instance", "--no-remote", "x"].map exactly ++
        [.operator ';', exactly "reboot", .operator ';', exactly ""]) := by
    unfold Shell.read firefoxShell suShell rundirFor
    simp only [String.toList_append, List.map_cons, List.map_nil, -String.reduceToList, -String.reduceAppend]
    unfold exactly
    repeat rw [String.toList_ofList]
    decide +kernel
  refine ⟨by decide +kernel, _, rfl, line, fun wrong => ?_⟩
  have same := Option.some.inj (line.symm.trans wrong)
  exact absurd (congrArg List.length same) (by decide)

end intended

end Bsdos.Streams
