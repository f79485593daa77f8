/-! The configuration that a new project starts from; its values are the built-in ones. -/
namespace HandlerHost.Config

/-- The example, line by line. -/
def exampleLines : List String := [
  "# funcbox configuration",
  "#",
  "# Every key is optional. Values below are the built-in defaults.",
  "# Top-level scalar keys can also be set through FUNCBOX_* environment",
  "# variables, e.g. FUNCBOX_DEFAULT_TIMEOUT_MS=3000.",
  "",
  "# Directory under which per-invocation workspaces are created.",
  "# Defaults to \"<system temp dir>/funcbox\".",
  "# workspace_root = \"/var/tmp/funcbox\"",
  "",
  "# Deadline applied when a request does not set timeoutMs.",
  "default_timeout_ms = 7000",
  "",
  "# Upper bound for any requested deadline.",
  "max_timeout_ms = 60000",
  "",
  "# Maximum number of invocations running at the same time.",
  "max_concurrent = 16",
  "",
  "# Log lines kept per invocation; the rest are dropped.",
  "max_log_lines = 1000",
  "",
  "# Environment handling for handler processes:",
  "#   \"process\"      - inherit the host environment",
  "#   \"scrubbed-env\" - clear the environment, keep PATH, HOME = workspace",
  "# Neither applies namespaces, cgroups or seccomp filters.",
  "isolation = \"process\"",
  "",
  "# Interpreter overrides. Without an entry the first interpreter found on",
  "# PATH is used (javascript: node, nodejs, bun; typescript: bun, node;",
  "# python: python3, python).",
  "#",
  "# [interpreters.javascript]",
  "# command = [\"node\"]",
  "#",
  "# [interpreters.typescript]",
  "# command = [\"bun\", \"run\"]",
  "#",
  "# [interpreters.python]",
  "# command = [\"python3\", \"-u\"]",
  ""]

def exampleText : String := String.intercalate "\n" exampleLines

end HandlerHost.Config
