import StakeAccounting.Snapshot.Settings
import StakeAccounting.Toml.Lines

/-!
# Settings in a file

Settings are kept in a TOML file. `Settings.ofText` reads the text of one and
checks what it says, so settings that were read from a text make sense; why a
text cannot be read is not told apart. `Settings.ofFile` starts from the bytes of
the file, if there is one.
-/

namespace StakeAccounting

namespace Settings

/-- **The settings a text spells**, unchecked; nothing if the text is not
well-formed, or does not describe settings. -/
def parse? (s : String) : Option Settings :=
  (Toml.read s).bind fun d =>
    match (decode .toml d : Decoded Settings) with
    | .ok settings => some settings
    | .error _ => none

/-- **The settings a text spells**, checked. -/
def ofText (s : String) : Outcome Settings := do
  let settings ← Outcome.orRefuse .unreadableSettings (parse? s)
  settings.check
  pure settings

/-- **The settings in a file**, given its bytes if it exists. -/
def ofFile : Option ByteArray → Outcome Settings
  | none => Outcome.refuse (.unreadableFile .missing)
  | some bytes =>
    match String.fromUTF8? bytes with
    | some s => ofText s
    | none => Outcome.refuse (.unreadableFile .notText)

/-- **Settings that were read from a text make sense.** -/
theorem check_of_ofText {s : String} {settings : Settings} (h : ofText s = .ok settings) :
    settings.check = .ok () := by
  unfold ofText at h
  cases hp : parse? s with
  | none => rw [hp] at h; simp [Outcome.refuse, bind, Except.bind] at h
  | some found =>
    rw [hp] at h
    cases hc : found.check with
    | error failure => simp [hc, bind, Except.bind] at h
    | ok u =>
      simp only [Outcome.orRefuse_some, bind, Except.bind, hc, pure, Except.pure,
        Except.ok.injEq] at h
      rw [← h, hc]

end Settings

end StakeAccounting
