import SourceDesk.CommandLine.Switch
import SourceDesk.Text.Padded

/-!
The texts about the program: what its switches mean, and its version.
-/

namespace SourceDesk.CommandLine

/-- The name of the program. -/
def programName : String := "transpile_session"

/-- The version of the program. -/
def programVersion : String := "0.1.0"

/-- What a value is called in the explanation of its switch. -/
def Slot.placeholder : Slot → String
  | .source => "SOURCES"
  | .translator => "TRANSLATOR"
  | .translatorArg => "TRANSLATOR_ARGS"
  | .language => "LANGUAGE"
  | .namespaceHint => "NAMESPACE"
  | .output => "OUTPUT"
  | .config => "CONFIG"

namespace Switch

/-- What a switch is for. -/
def purpose : Switch → String
  | .slot .source => "源文件路径（可多次指定）"
  | .slot .translator => "翻译器程序路径"
  | .slot .translatorArg => "传给翻译器的参数（可多次指定）"
  | .slot .language => "目标语言（默认使用翻译器语言列表的第一个）"
  | .slot .namespaceHint => "命名空间/前缀提示"
  | .slot .output => "生成文件输出目录"
  | .slot .config => "JSON 配置文件"
  | .toggle .listLanguages => "列出翻译器支持的目标语言"
  | .toggle .quiet => "静默模式(仅输出错误)"
  | .toggle .verbose => "输出调试日志"
  | .notice .help => "Print help"
  | .notice .version => "Print version"

/-- How a switch is written. -/
def usage (s : Switch) : String :=
  (match s.letter? with
    | some c => "-" ++ c.toString ++ ", "
    | none => "    ") ++
  "--" ++ s.name ++
  match s with
  | .slot v => " <" ++ v.placeholder ++ ">"
  | _ => ""

/-- The width of the longest way to write a switch. -/
def usageWidth : Nat := (all.map fun s => s.usage.length).foldl max 0

/-- The line that explains a switch. -/
def explanation (s : Switch) : String :=
  "  " ++ padded usageWidth s.usage ++ "  " ++ s.purpose

end Switch

/-- What a notice says, in lines. -/
def Notice.lines : Notice → List String
  | .help =>
    ["加载源文件，调用外部翻译器生成目标代码，并定位翻译错误", "",
     "Usage: " ++ programName ++ " [OPTIONS]", "", "Options:"] ++ Switch.all.map Switch.explanation
  | .version => [programName ++ " " ++ programVersion]

/-- What a notice says. -/
def Notice.text (n : Notice) : String := String.join (n.lines.map (· ++ "\n"))

end SourceDesk.CommandLine
