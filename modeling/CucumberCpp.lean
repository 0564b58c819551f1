import CucumberCpp.HookOrder
import CucumberCpp.HookOrderArgument
import CucumberCpp.EventStream
import CucumberCpp.AssembledSuites
import CucumberCpp.FeatureHooks
import CucumberCpp.HookFailures
import CucumberCpp.HookFailureStop
import CucumberCpp.Registration
import CucumberCpp.NestedResults
import CucumberCpp.Diagnostics
import CucumberCpp.NestedTestCaseRunner
import CucumberCpp.PluginSessions
import CucumberCpp.ContextChain
import CucumberCpp.DiscoveredTests
import CucumberCpp.AttemptLimits
import CucumberCpp.StepComposition
import CucumberCpp.HasError
import CucumberCpp.ParameterMap
import CucumberCpp.UsageReport
import CucumberCpp.SupportCodeAgreement
import CucumberCpp.Attachments
import CucumberCpp.CtestScript
import CucumberCpp.DeclaredIds
import CucumberCpp.JunitVerdict
import CucumberCpp.DiscoveredVerdict
import CucumberCpp.MilderOptions
import CucumberCpp.AttachmentContents
