import PhpOutline.Settings.Toml
import PhpOutline.Text.Utf8

/-!
# Loading settings

The settings stand in a file that the environment names or that the user has at a fixed place.
Without either of them the defaults are used.
-/

namespace PhpOutline

namespace Settings

section
variable {m : Type → Type} [Monad m] (h : Host m)

/-- The settings in a file. -/
def loadFrom (path : String) : m (Except SettingsError Settings) := do
  if (← h.look path).isNone then return .error (.notFound path)
  match ← h.read path with
  | .error e => return .error (.unreadable e)
  | .ok bytes =>
    match Text.decode bytes with
    | .error _ => return .error (.unreadable .notText)
    | .ok source => return ofToml source

/-- The settings to be used. -/
def load : m (Except SettingsError Settings) := do
  match ← h.settingsVariable with
  | some path => loadFrom h path
  | none =>
    match ← h.settingsPath with
    | none => return .error .noPlace
    | some path => if (← h.look path).isSome then loadFrom h path else return .ok {}

end

end Settings

end PhpOutline
