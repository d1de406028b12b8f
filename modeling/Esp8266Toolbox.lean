import Esp8266Toolbox.Lib.Loops
import Esp8266Toolbox.Lib.ModPow
import Esp8266Toolbox.Lib.Bytes
import Esp8266Toolbox.Lib.Blocks
import Esp8266Toolbox.Crypto.Bigint
import Esp8266Toolbox.Crypto.BigintBits
import Esp8266Toolbox.Crypto.BigintTheorems
import Esp8266Toolbox.Crypto.BigintExpmod
import Esp8266Toolbox.Lib.CString
import Esp8266Toolbox.Lib.Runs
import Esp8266Toolbox.Crypto.BlockHash
import Esp8266Toolbox.Crypto.Sha256
import Esp8266Toolbox.Crypto.Fips180
import Esp8266Toolbox.Crypto.Sha256Theorems
import Esp8266Toolbox.Uptime
import Esp8266Toolbox.UptimeTheorems
import Esp8266Toolbox.Http.Process
import Esp8266Toolbox.Crypto.Rsa
import Esp8266Toolbox.Crypto.RsaTheorems
import Esp8266Toolbox.Http.Ota
import Esp8266Toolbox.Http.Server
import Esp8266Toolbox.Http.OtaTheorems
import Esp8266Toolbox.Http.ServerTheorems
import Esp8266Toolbox.Http.OtaConfinement
import Esp8266Toolbox.Http.OtaStreaming
import Esp8266Toolbox.Http.OtaSignature
import Esp8266Toolbox.Http.OtaAcceptance
import Esp8266Toolbox.Http.OtaKept
import Esp8266Toolbox.Http.Request
import Esp8266Toolbox.Http.ProcessTheorems
import Esp8266Toolbox.Http.Segments
import Esp8266Toolbox.Http.OtaDigest
import Esp8266Toolbox.Http.FieldWrites
import Esp8266Toolbox.Http.Sessions
import Esp8266Toolbox.Http.SlotAccounting
import Esp8266Toolbox.Http.OneResponse
import Esp8266Toolbox.Lib.Format
import Esp8266Toolbox.Log
import Esp8266Toolbox.LogTheorems
import Esp8266Toolbox.Flash
import Esp8266Toolbox.Param
import Esp8266Toolbox.ParamTheorems
import Esp8266Toolbox.Crypto.BigintProgramTheorems
import Esp8266Toolbox.Crypto.BigintPrograms
import Esp8266Toolbox.Crypto.Md5
import Esp8266Toolbox.Crypto.Md5Table
import Esp8266Toolbox.Crypto.Md5Theorems
import Esp8266Toolbox.Crypto.Base64
import Esp8266Toolbox.Crypto.CramMd5
import Esp8266Toolbox.Crypto.Base64Theorems
import Esp8266Toolbox.Smtp.Client
import Esp8266Toolbox.Lib.Words
import Esp8266Toolbox.Lib.Checked
import Esp8266Toolbox.Crypto.Rfc1321
import Esp8266Toolbox.Smtp.Answer
import Esp8266Toolbox.Smtp.Lines
import Esp8266Toolbox.Smtp.ClientTheorems
import Esp8266Toolbox.Smtp.Challenge
import Esp8266Toolbox.Smtp.Session
import Esp8266Toolbox.Smtp.History
import Esp8266Toolbox.Monitor
import Esp8266Toolbox.MonitorTheorems
import Esp8266Toolbox.Smtp.Notices
import Esp8266Toolbox.Smtp.Cleanup
import Esp8266Toolbox.Lib.LineStream
import Esp8266Toolbox.Crypto.BigintCalls
import Esp8266Toolbox.DailyMail
import Esp8266Toolbox.Lib.TextLines
import Esp8266Toolbox.Http.Outbuf
import Esp8266Toolbox.LogMacros
import Esp8266Toolbox.Http.UrlLogs
import Esp8266Toolbox.Http.LogScan
import Esp8266Toolbox.Http.LogPage
import Esp8266Toolbox.Http.LogAnswers
import Esp8266Toolbox.Lib.Escapes
import Esp8266Toolbox.Http.Utils
import Esp8266Toolbox.Http.FormDecoding
import Esp8266Toolbox.Http.UrlSmtp
import Esp8266Toolbox.Http.SmtpSetup
import Esp8266Toolbox.Http.HeaderTrace
import Esp8266Toolbox.Http.Tokens
import Esp8266Toolbox.Http.HeaderRecognition
import Esp8266Toolbox.Smtp.Reader
import Esp8266Toolbox.Smtp.SegmentRead
import Esp8266Toolbox.Smtp.Segmentation
import Esp8266Toolbox.Crypto.BigintText
import Esp8266Toolbox.Crypto.Md5InPlace
import Esp8266Toolbox.Crypto.LengthField
import Esp8266Toolbox.Crypto.Base64Texts
import Esp8266Toolbox.Lib.MailData
import Esp8266Toolbox.Smtp.Transparency
import Esp8266Toolbox.ParamChecks
import Esp8266Toolbox.Drivers.Tsl2561
import Esp8266Toolbox.Drivers.Tsl2561Bus
import Esp8266Toolbox.Drivers.Tsl2561Theorems
import Esp8266Toolbox.Crypto.BigintCompare
import Esp8266Toolbox.Http.TokenContract
import Esp8266Toolbox.Http.UrlDecode
import Esp8266Toolbox.Lib.TwoWire
import Esp8266Toolbox.Drivers.I2cMaster
import Esp8266Toolbox.Drivers.I2cTarget
import Esp8266Toolbox.Drivers.I2cRecovery
import Esp8266Toolbox.Drivers.Tsl2561Wire
import Esp8266Toolbox.Lib.HttpResponse
import Esp8266Toolbox.Http.Pages
import Esp8266Toolbox.Http.UrlWifi
import Esp8266Toolbox.Http.WifiSetup
import Esp8266Toolbox.Http.FormSubmission
import Esp8266Toolbox.Http.PagesTheorems
import Esp8266Toolbox.Http.Site
import Esp8266Toolbox.Http.SiteTheorems
import Esp8266Toolbox.Http.SiteAnswers
import Esp8266Toolbox.Http.Delivery
import Esp8266Toolbox.Http.Visits
import Esp8266Toolbox.Http.OtaLife
import Esp8266Toolbox.Http.OtaDelivery
import Esp8266Toolbox.Smtp.Account
import Esp8266Toolbox.Smtp.AccountTheorems
import Esp8266Toolbox.LogUart
import Esp8266Toolbox.LogUartTheorems
