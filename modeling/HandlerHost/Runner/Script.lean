import HandlerHost.Language
import HandlerHost.Runner.Template

/-! The scripts that load a handler, call it with the event and print the framed result. -/
namespace HandlerHost.Runner

/-- The script for JavaScript and TypeScript handlers, line by line. -/
def moduleLines : List String := [
  "// Generated by funcbox. Loads the user handler, invokes it with the event",
  "// and writes the framed result to stdout.",
  "import \x7b readFileSync, writeSync \x7d from 'node:fs';",
  "import \x7b resolve \x7d from 'node:path';",
  "import \x7b pathToFileURL \x7d from 'node:url';",
  "import \x7b format, inspect \x7d from 'node:util';",
  "",
  "const HANDLER_NAME = \x7bhandler_name\x7d;",
  "const SOURCE_FILE = \x7bsource_file\x7d;",
  "const EVENT_FILE = \x7bevent_file\x7d;",
  "const RESULT_START = \x7bresult_start\x7d;",
  "const RESULT_END = \x7bresult_end\x7d;",
  "",
  "const writeLine = (fd, text) => \x7b",
  "  const buf = Buffer.from(text + '\\n');",
  "  let offset = 0;",
  "  while (offset < buf.length) \x7b",
  "    try \x7b",
  "      offset += writeSync(fd, buf, offset);",
  "    \x7d catch (err) \x7b",
  "      if (err.code !== 'EAGAIN') return;",
  "    \x7d",
  "  \x7d",
  "\x7d;",
  "",
  "const intercept = (prefix) => (...args) => writeLine(1, prefix + format(...args));",
  "console.log = intercept('');",
  "console.info = intercept('');",
  "console.debug = intercept('');",
  "console.warn = intercept('[WARN] ');",
  "console.error = intercept('[ERROR] ');",
  "",
  "const describe = (err) => (err && err.message ? err.message : String(err));",
  "",
  "const errorResponse = (message) => (\x7b",
  "  statusCode: 500,",
  "  headers: \x7b 'content-type': 'application/json' \x7d,",
  "  body: JSON.stringify(\x7b error: message \x7d),",
  "\x7d);",
  "",
  "const isPlainObject = (value) =>",
  "  value !== null && typeof value === 'object' && !Array.isArray(value);",
  "",
  "const stringify = (value) => \x7b",
  "  try \x7b",
  "    const text = JSON.stringify(value);",
  "    return text === undefined ? '' : text;",
  "  \x7d catch (err) \x7b",
  "    try \x7b",
  "      return inspect(value, \x7b depth: 4 \x7d);",
  "    \x7d catch \x7b",
  "      return '[unserializable value: ' + describe(err) + ']';",
  "    \x7d",
  "  \x7d",
  "\x7d;",
  "",
  "const coerceStatus = (raw) => \x7b",
  "  let code = NaN;",
  "  if (typeof raw === 'number') code = raw;",
  "  else if (typeof raw === 'string' && /^\\s*\\d+\\s*$/.test(raw)) code = Number(raw);",
  "  return Number.isInteger(code) && code >= 0 && code <= 65535 ? code : 200;",
  "\x7d;",
  "",
  "const coerceHeaders = (raw) => \x7b",
  "  const headers = \x7b\x7d;",
  "  if (!isPlainObject(raw)) return headers;",
  "  for (const [name, value] of Object.entries(raw)) \x7b",
  "    if (value === null || value === undefined) continue;",
  "    headers[name] = typeof value === 'string' ? value : stringify(value);",
  "  \x7d",
  "  return headers;",
  "\x7d;",
  "",
  "const coerceBody = (raw) => \x7b",
  "  if (raw === null || raw === undefined) return '';",
  "  return typeof raw === 'string' ? raw : stringify(raw);",
  "\x7d;",
  "",
  "const normalize = (value) => \x7b",
  "  const record =",
  "    isPlainObject(value) && ('statusCode' in value || 'headers' in value || 'body' in value)",
  "      ? value",
  "      : \x7b body: value \x7d;",
  "  return \x7b",
  "    statusCode: coerceStatus(record.statusCode),",
  "    headers: coerceHeaders(record.headers),",
  "    body: coerceBody(record.body),",
  "  \x7d;",
  "\x7d;",
  "",
  "const emit = (response) => \x7b",
  "  let text;",
  "  try \x7b",
  "    text = JSON.stringify(response);",
  "  \x7d catch (err) \x7b",
  "    text = JSON.stringify(errorResponse('Result is not serializable: ' + describe(err)));",
  "  \x7d",
  "  writeLine(1, '');",
  "  writeLine(1, RESULT_START);",
  "  writeLine(1, text);",
  "  writeLine(1, RESULT_END);",
  "\x7d;",
  "",
  "const readEvent = () => \x7b",
  "  try \x7b",
  "    return JSON.parse(readFileSync(EVENT_FILE, 'utf8'));",
  "  \x7d catch (err) \x7b",
  "    console.error('Failed to parse event, using \x7b\x7d: ' + describe(err));",
  "    return \x7b\x7d;",
  "  \x7d",
  "\x7d;",
  "",
  "const resolveHandler = (mod) => \x7b",
  "  if (mod && typeof mod[HANDLER_NAME] === 'function') return mod[HANDLER_NAME];",
  "  const fallback = mod ? mod.default : undefined;",
  "  if (fallback && typeof fallback[HANDLER_NAME] === 'function') \x7b",
  "    return (event) => fallback[HANDLER_NAME](event);",
  "  \x7d",
  "  return null;",
  "\x7d;",
  "",
  "const main = async () => \x7b",
  "  const event = readEvent();",
  "",
  "  let mod;",
  "  try \x7b",
  "    mod = await import(pathToFileURL(resolve(SOURCE_FILE)).href);",
  "  \x7d catch (err) \x7b",
  "    writeLine(2, (err && err.stack) || String(err));",
  "    emit(errorResponse('Failed to load handler module: ' + describe(err)));",
  "    return;",
  "  \x7d",
  "",
  "  const handler = resolveHandler(mod);",
  "  if (!handler) \x7b",
  "    emit(errorResponse('Missing handler: ' + HANDLER_NAME));",
  "    return;",
  "  \x7d",
  "",
  "  let value;",
  "  try \x7b",
  "    value = await handler(event);",
  "  \x7d catch (err) \x7b",
  "    writeLine(2, (err && err.stack) || String(err));",
  "    emit(errorResponse(describe(err)));",
  "    return;",
  "  \x7d",
  "",
  "  emit(normalize(value));",
  "\x7d;",
  "",
  "// A pending handler promise alone does not keep the event loop alive.",
  "const keepAlive = setInterval(() => \x7b\x7d, 1 << 30);",
  "",
  "main()",
  "  .catch((err) => emit(errorResponse(describe(err))))",
  "  .finally(() => \x7b",
  "    clearInterval(keepAlive);",
  "    process.exit(0);",
  "  \x7d);",
  ""]

/-- The script for Python handlers, line by line. -/
def pythonLines : List String := [
  "# Generated by funcbox. Loads the user handler, invokes it with the event",
  "# and writes the framed result to stdout.",
  "import asyncio",
  "import builtins",
  "import importlib.util",
  "import inspect",
  "import json",
  "import logging",
  "import sys",
  "import traceback",
  "",
  "HANDLER_NAME = \x7bhandler_name\x7d",
  "SOURCE_FILE = \x7bsource_file\x7d",
  "EVENT_FILE = \x7bevent_file\x7d",
  "RESULT_START = \x7bresult_start\x7d",
  "RESULT_END = \x7bresult_end\x7d",
  "",
  "_stdout = sys.stdout",
  "_print = builtins.print",
  "",
  "",
  "def _flushing_print(*args, **kwargs):",
  "    kwargs.setdefault(\"flush\", True)",
  "    _print(*args, **kwargs)",
  "",
  "",
  "builtins.print = _flushing_print",
  "logging.basicConfig(",
  "    stream=sys.stdout,",
  "    level=logging.DEBUG,",
  "    format=\"[%(levelname)s] %(message)s\",",
  "    force=True,",
  ")",
  "",
  "",
  "def _describe(exc):",
  "    message = str(exc)",
  "    return message if message else type(exc).__name__",
  "",
  "",
  "def _error_response(message):",
  "    return \x7b",
  "        \"statusCode\": 500,",
  "        \"headers\": \x7b\"content-type\": \"application/json\"\x7d,",
  "        \"body\": json.dumps(\x7b\"error\": message\x7d),",
  "    \x7d",
  "",
  "",
  "def _stringify(value):",
  "    try:",
  "        return json.dumps(value)",
  "    except (TypeError, ValueError) as exc:",
  "        try:",
  "            return repr(value)",
  "        except Exception:",
  "            return \"[unserializable value: %s]\" % _describe(exc)",
  "",
  "",
  "def _coerce_status(raw):",
  "    if isinstance(raw, bool):",
  "        return 200",
  "    if isinstance(raw, int):",
  "        code = raw",
  "    elif isinstance(raw, float) and raw.is_integer():",
  "        code = int(raw)",
  "    elif isinstance(raw, str) and raw.strip().isascii() and raw.strip().isdigit():",
  "        code = int(raw.strip())",
  "    else:",
  "        return 200",
  "    return code if 0 <= code <= 65535 else 200",
  "",
  "",
  "def _coerce_headers(raw):",
  "    if not isinstance(raw, dict):",
  "        return \x7b\x7d",
  "    return \x7b",
  "        str(name): value if isinstance(value, str) else _stringify(value)",
  "        for name, value in raw.items()",
  "        if value is not None",
  "    \x7d",
  "",
  "",
  "def _coerce_body(raw):",
  "    if raw is None:",
  "        return \"\"",
  "    if isinstance(raw, str):",
  "        return raw",
  "    return _stringify(raw)",
  "",
  "",
  "def _normalize(value):",
  "    if isinstance(value, dict) and any(k in value for k in (\"statusCode\", \"headers\", \"body\")):",
  "        record = value",
  "    else:",
  "        record = \x7b\"body\": value\x7d",
  "    return \x7b",
  "        \"statusCode\": _coerce_status(record.get(\"statusCode\")),",
  "        \"headers\": _coerce_headers(record.get(\"headers\")),",
  "        \"body\": _coerce_body(record.get(\"body\")),",
  "    \x7d",
  "",
  "",
  "def _emit(response):",
  "    try:",
  "        text = json.dumps(response)",
  "    except (TypeError, ValueError) as exc:",
  "        text = json.dumps(_error_response(\"Result is not serializable: %s\" % _describe(exc)))",
  "    _stdout.write(\"\\n%s\\n%s\\n%s\\n\" % (RESULT_START, text, RESULT_END))",
  "    _stdout.flush()",
  "",
  "",
  "def _read_event():",
  "    try:",
  "        with open(EVENT_FILE, encoding=\"utf-8\") as fh:",
  "            return json.load(fh)",
  "    except (OSError, ValueError) as exc:",
  "        print(\"[ERROR] Failed to parse event, using \x7b\x7d: %s\" % _describe(exc))",
  "        return \x7b\x7d",
  "",
  "",
  "def _load_module():",
  "    spec = importlib.util.spec_from_file_location(\"user_function\", SOURCE_FILE)",
  "    if spec is None or spec.loader is None:",
  "        raise ImportError(\"cannot load %s\" % SOURCE_FILE)",
  "    module = importlib.util.module_from_spec(spec)",
  "    sys.modules[\"user_function\"] = module",
  "    spec.loader.exec_module(module)",
  "    return module",
  "",
  "",
  "def _resolve_handler(module):",
  "    candidate = getattr(module, HANDLER_NAME, None)",
  "    if callable(candidate):",
  "        return candidate",
  "    default = getattr(module, \"default\", None)",
  "    if isinstance(default, dict):",
  "        candidate = default.get(HANDLER_NAME)",
  "    else:",
  "        candidate = getattr(default, HANDLER_NAME, None)",
  "    return candidate if callable(candidate) else None",
  "",
  "",
  "async def _await(awaitable):",
  "    return await awaitable",
  "",
  "",
  "def main():",
  "    event = _read_event()",
  "",
  "    try:",
  "        module = _load_module()",
  "    except BaseException as exc:",
  "        traceback.print_exc()",
  "        _emit(_error_response(\"Failed to load handler module: %s\" % _describe(exc)))",
  "        return",
  "",
  "    handler = _resolve_handler(module)",
  "    if handler is None:",
  "        _emit(_error_response(\"Missing handler: %s\" % HANDLER_NAME))",
  "        return",
  "",
  "    try:",
  "        result = handler(event)",
  "        if inspect.isawaitable(result):",
  "            result = asyncio.run(_await(result))",
  "    except BaseException as exc:",
  "        traceback.print_exc()",
  "        _emit(_error_response(_describe(exc)))",
  "        return",
  "",
  "    _emit(_normalize(result))",
  "",
  "",
  "if __name__ == \"__main__\":",
  "    main()",
  ""]

/-- The template of a language's script. -/
def template : Language → String
  | .javascript => String.intercalate "\n" moduleLines
  | .typescript => String.intercalate "\n" moduleLines
  | .python => String.intercalate "\n" pythonLines

/-- The script that runs the named handler of a source file. -/
def script (l : Language) (handler : String) : String :=
  Template.render (template l) handler l.sourceFile

end HandlerHost.Runner
