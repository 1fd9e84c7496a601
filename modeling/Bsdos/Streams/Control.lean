import Bsdos.Streams.System
import Bsdos.Text

namespace Bsdos.Streams

/-- What the pieces of a start command name: an app id, an app and, where there is a third
piece, a URL. -/
def ofParts : List String → Option StreamConfig
  | appId :: app :: rest =>
    some { StreamConfig.default with appId := appId, app := app, url := rest.head?.getD "about:blank" }
  | _ => none

/-- The start command in a control payload. -/
def ctlStart (text : String) : Option StreamConfig := ofParts (Text.splitn 3 ':' text)

/-- What the control subscriber does about a sample. -/
def ctlRequest (topic text : String) : Option Request :=
  if topic.endsWith "/start" then (ctlStart text).map .start
  else if topic.endsWith "/stop" then some (.stop (Text.trim text))
  else if topic.endsWith "/list" then some .list
  else none

/-- An entry of `BSDOS_AUTOSTREAM`; blank and malformed ones are skipped. -/
def autostreamEntry (entry : String) : Option StreamConfig :=
  if (Text.trim entry).isEmpty then none else ofParts (Text.splitn 3 ':' (Text.trim entry))

def parseAutostreamEnv (autostream : String) : List StreamConfig :=
  (Text.split ',' autostream).filterMap autostreamEntry

/-- A control payload can name any app id and any app without a colon, and any URL. -/
theorem ctlStart_payload {appId app url : String} (appId_free : ':' ∉ appId.toList) (app_free : ':' ∉ app.toList) :
    ctlStart (appId ++ ":" ++ app ++ ":" ++ url) =
      some { StreamConfig.default with appId := appId, app := app, url := url } := by
  have pieces : Text.splitn 3 ':' (appId ++ ":" ++ app ++ ":" ++ url) = [appId, app, url] := by
    unfold Text.splitn
    have text : (appId ++ ":" ++ app ++ ":" ++ url).toList =
        appId.toList ++ ':' :: (app.toList ++ ':' :: url.toList) := by
      simp only [String.toList_append, List.append_assoc]
      rfl
    rw [text, Text.splitnChars_piece appId_free, Text.splitnChars_piece app_free]
    simp only [Text.splitnChars, List.map_cons, List.map_nil, String.ofList_toList]
  unfold ctlStart
  rw [pieces]
  rfl

end Bsdos.Streams
