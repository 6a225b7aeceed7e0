import StrusWebService.Library.StepSystem
import StrusWebService.Delegate.Outcome
import StrusWebService.Delegate.Refinement
import StrusWebService.Library.Throwing
import StrusWebService.Library.Countdown
import StrusWebService.Form.RoundTrip
import StrusWebService.Config.Resolve
import StrusWebService.Config.Grammar
import StrusWebService.Service.Exclusive
import StrusWebService.Service.Lockout
import StrusWebService.Service.Queue
import StrusWebService.Service.Progress
import StrusWebService.MainLoop.Quit
import StrusWebService.MainLoop.Reload
import StrusWebService.MainLoop.Process
import StrusWebService.Service.Processing
import StrusWebService.Application.Cors
import StrusWebService.Application.Routes
import StrusWebService.Logger.ThreadId
import StrusWebService.Client.Decoding
import StrusWebService.AnaConfig.Unread
import StrusWebService.Logger.MessageBuf
import StrusWebService.Logger.Content
import StrusWebService.Logger.Labels
import StrusWebService.Logger.Lines
import StrusWebService.CurlClient.Url
import StrusWebService.CurlClient.Process
import StrusWebService.CurlClient.Main
import StrusWebService.Service.BaseUrl
import StrusWebService.Application.Operations
import StrusWebService.Application.Head
import StrusWebService.AnaConfig.Pieces
import StrusWebService.AnaConfig.Arguments
import StrusWebService.AnaConfig.Options
import StrusWebService.Client.Dump
import StrusWebService.Client.Features
import StrusWebService.Messages.Exceptions
import StrusWebService.Messages.Beautify
import StrusWebService.Form.Visits
