/-
The settings that a new configuration starts with.
-/
import ConsoleShell.Text.Bytes

namespace ConsoleShell

namespace Configuration

/-- The lines of the settings of a new configuration. -/
def defaultLines : List String := [
  "# Prompt for interactive sessions, IOCSH_PS1 overrides it.",
  "prompt: \"iocsh> \"",
  "",
  "# Script run by \"iocsh run\" before the console starts, relative to the",
  "# working directory. Leave empty to go straight to the console.",
  "startup_script: \"\"",
  "",
  "# Macro definitions for the startup script, e.g. \"P=pump1:,R=speed\".",
  "macros: \"\"",
  "",
  "# Use ANSI colors in help and error output.",
  "color: true",
  "",
  "# Persistent command history, relative to the configuration directory.",
  "history_db: \"history.db\"",
  "history_limit: 500",
  "",
  "# Structured event log, relative to the configuration directory.",
  "app_log: \"app.log\"",
  "",
  "console:",
  "  port: 2222",
  "  banner: \"iocsh console\\n\"",
  "  # Maximum bytes per second read from a client, 0 disables the limit.",
  "  max_input_rate: 1024",
  "  # Session recordings, relative to the configuration directory.",
  "  recordings: \"session_logs\"",
  "  recording_format: \"asciicast\"",
  "  # Reject redirections and commands that modify files.",
  "  read_only: false",
  "  users:",
  "    - username: \"operator\"",
  "      passwords:",
  "        - \"changeme\""]

/-- The settings of a new configuration. -/
def defaultText : Bytes := defaultLines.flatMap fun (l : String) => Bytes.line l

end Configuration

end ConsoleShell
