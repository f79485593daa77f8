/-! The two lines between which a runner prints its result. -/
namespace HandlerHost.Output

def resultStart : String := "___RESULT_START___"

def resultEnd : String := "___RESULT_END___"

end HandlerHost.Output
